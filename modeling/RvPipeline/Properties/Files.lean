import RvPipeline.Properties.ExitStatus

/-!
# Files

Which files does the simulator write, and what is in them?

Results:

* `main_files`: no file but the one for the state is touched, and after a success it holds
  what the file system has stored of the state in which the run has stopped.

`main` looks at the stream before the file is closed, so that a success alone does not show
that the text has arrived. Where the file system stores faithfully, it has.
-/

namespace RvPipeline

open Isa State

/-! ## Other files -/

section

variable {env : Environment} {options : MainOptions} {cpu : CPU} {other : Path}

/-- The content of a file. -/
abbrev fileAt (path : Path) (w : World) : Option (List Char) := w.files path

theorem print_keeps (f : OStream → OStream) : Keeps (fileAt other) (print f) := keeps_onCout _

/-- What is done on request keeps the files if it does when requested. -/
theorem onlyIf_keeps {p : MainM Unit} (h : Keeps (fileAt other) p) (b : Bool) :
    Keeps (fileAt other) (onlyIf b p) := by
  unfold onlyIf
  split
  · exact h
  · exact keeps_pure _

theorem printUsage_keeps (executable : Path) : Keeps (fileAt other) (printUsage executable) := by
  unfold printUsage
  iterate 15 refine (print_keeps _).bind fun _ => ?_
  exact (print_keeps _).bind fun _ => print_keeps _

theorem printDemoInstructions_keeps (instructions : List DemoInstruction) (address : Word) :
    Keeps (fileAt other) (printDemoInstructions instructions address) := by
  induction instructions generalizing address with
  | nil => exact keeps_pure _
  | cons instruction instructions ih => exact (print_keeps _).bind fun _ => ih _

theorem loadImage_keeps : Keeps (fileAt other) (loadImage env options) := by
  unfold loadImage
  split
  · exact ((print_keeps _).bind fun _ => printDemoInstructions_keeps _ _).bind fun _ =>
      keeps_pure _
  · exact (keeps_ofExcept _).bind fun _ => (print_keeps _).bind fun _ => keeps_pure _

theorem boot_keeps (program : LoadedProgram) : Keeps (fileAt other) (boot options program) := by
  unfold boot
  split
  · exact keeps_pure _
  · exact keeps_throw _

/-- A trace goes to the standard output. -/
theorem traceRound_keeps (printed : ℕ) (m : Machine) :
    Keeps (fileAt other) (traceRound options printed m) := by
  unfold traceRound
  split
  · exact (keeps_onCout _).bind fun _ => keeps_pure _
  · exact keeps_pure _

theorem cycle_keeps (m : Machine) : Keeps (fileAt other) (cycle m) := by
  unfold cycle
  split
  · exact keeps_pure _
  · exact keeps_throw _

theorem simulate_keeps (fuel printed : ℕ) (m : Machine) :
    Keeps (fileAt other) (simulate options fuel printed m) := by
  induction fuel generalizing printed m with
  | zero =>
    intro w r w' h
    cases h
  | succ fuel ih =>
    rw [simulate]
    split
    · exact (traceRound_keeps _ _).bind fun _ => (cycle_keeps _).bind fun _ => ih _ _
    · exact keeps_pure _

/-- Neither loading nor running touches a file, also when a cycle throws. -/
theorem runProgram_keeps : Keeps (fileAt other) (runProgram env options) :=
  loadImage_keeps.bind fun _ => (boot_keeps _).bind fun _ =>
    ((print_keeps _).bind fun _ => (print_keeps _).bind fun _ => (print_keeps _).bind fun _ =>
      (print_keeps _).bind fun _ => print_keeps _).bind fun _ => simulate_keeps _ _ _

theorem printStats_keeps : Keeps (fileAt other) (printStats env cpu) := by
  unfold printStats
  iterate 8 refine (print_keeps _).bind fun _ => ?_
  exact (print_keeps _).bind fun _ => print_keeps _

/-- The output in front of the export. -/
theorem dumps_keep : Keeps (fileAt other) (do
    printRegisters cpu
    printStats env cpu
    onlyIf options.dumpRegs (onCout (printRegisterDump cpu))
    onlyIf options.dumpMemory
      (onCout (printMemoryDump cpu options.dumpMemoryStart options.dumpMemoryLength))
    onlyIf options.dumpWrittenMemory (onCout (printWrittenMemoryDump cpu)) : MainM Unit) :=
  ((print_keeps _).bind fun _ => keeps_forM fun _ => print_keeps _).bind fun _ =>
    printStats_keeps.bind fun _ => (onlyIf_keeps (keeps_onCout _) _).bind fun _ =>
      (onlyIf_keeps (keeps_onCout _) _).bind fun _ => onlyIf_keeps (keeps_onCout _) _

/-- The export comes last in the report. -/
theorem report_eq (env : Environment) (options : MainOptions) (cpu : CPU) :
    report env options cpu = ((do
      printRegisters cpu
      printStats env cpu
      onlyIf options.dumpRegs (onCout (printRegisterDump cpu))
      onlyIf options.dumpMemory
        (onCout (printMemoryDump cpu options.dumpMemoryStart options.dumpMemoryLength))
      onlyIf options.dumpWrittenMemory (onCout (printWrittenMemoryDump cpu)) : MainM Unit) >>=
      fun _ => writeArchitecturalState env options cpu) := by
  unfold report
  simp only [bind_assoc]

/-- The export touches its own file at most. -/
theorem writeArchitecturalState_keeps
    (h : options.dumpStatePath ≠ [] → other ≠ options.dumpStatePath) :
    Keeps (fileAt other) (writeArchitecturalState env options cpu) := by
  unfold writeArchitecturalState
  simp only
  split
  · exact keeps_pure _
  next hpath =>
  split
  · exact keeps_throw _
  refine (toFile_keeps (h hpath)).bind fun good => ?_
  split
  · exact keeps_throw _
  · exact print_keeps _

theorem checkExpectation_keeps (check : MemoryExpectation) :
    Keeps (fileAt other) (checkExpectation cpu check) :=
  (keeps_onCout _).bind fun _ => (print_keeps _).bind fun _ => keeps_pure _

theorem checkMemoryExpectations_keeps (checks : List MemoryExpectation) :
    Keeps (fileAt other) (checkMemoryExpectations cpu checks) := by
  unfold checkMemoryExpectations
  split
  · exact keeps_pure _
  · exact (print_keeps _).bind fun _ => keeps_foldlM
      (fun _ _ => (checkExpectation_keeps _).bind fun _ => keeps_pure _) _

theorem decideStatus_keeps (passed : Bool) :
    Keeps (fileAt other) (decideStatus options cpu passed) := by
  unfold decideStatus
  split
  · refine (keeps_modify fun w => ?_).bind fun _ => keeps_pure _
    rfl
  split
  · exact keeps_pure _
  · exact keeps_pure _

/-- What is done behind the export. -/
theorem verdict_keeps : Keeps (fileAt other)
    (checkMemoryExpectations cpu options.memoryExpectations >>= decideStatus options cpu) :=
  (checkMemoryExpectations_keeps _).bind fun _ => decideStatus_keeps _

theorem finish_keeps (h : options.dumpStatePath ≠ [] → other ≠ options.dumpStatePath) :
    Keeps (fileAt other) (finish env options cpu) := by
  rw [finish_eq, report_eq]
  exact (dumps_keep.bind fun _ => writeArchitecturalState_keeps h).bind fun _ => verdict_keeps

/-- A file that is not the one of an accepted command line stays as it is. -/
theorem mainBody_keeps {args : List Path} (h : ∀ options, parseCli args = .ok options →
      options.showHelp = false → options.dumpStatePath ≠ [] → other ≠ options.dumpStatePath) :
    Keeps (fileAt other) (mainBody env args) := by
  rw [mainBody_eq]
  refine (keeps_ofExcept _).bind_of fun options hoptions => ?_
  obtain ⟨w, hparse⟩ := hoptions
  have hparse : parseCli args = .ok options := (yields_ofExcept _ options w).mp hparse
  cases hhelp : options.showHelp with
  | true => exact (printUsage_keeps _).bind fun _ => keeps_pure _
  | false => exact runProgram_keeps.bind fun _ => finish_keeps (h options hparse hhelp)

/-! ## The file -/

/-- What is written to the path arrives there unchanged. -/
def StoresFaithfully (env : Environment) (path : Path) : Prop :=
  ∀ text, (env.stores path text).2 = text

/-- After an export, the file holds what has been printed. -/
theorem returns_writeArchitecturalState {w w' : World} (hpath : options.dumpStatePath ≠ [])
    (h : Returns (writeArchitecturalState env options cpu) w () w') :
    ∃ o, Prints (printArchitecturalStateJson cpu options.stateMemoryRanges) {} o ∧
      fileAt options.dumpStatePath w' = some (env.stores options.dumpStatePath o.text).2 := by
  unfold writeArchitecturalState at h
  simp only [if_neg hpath] at h
  split at h
  · cases h
  obtain ⟨good, w₁, hfile, h⟩ := returns_bind_iff.mp h
  obtain ⟨o, hprints, -, hfiles⟩ := returns_toFile hfile
  refine ⟨o, hprints, ?_⟩
  have hrest : fileAt options.dumpStatePath w' = fileAt options.dumpStatePath w₁ := by
    split at h
    · cases h
    · exact (print_keeps _).returns h
  rw [hrest, fileAt, hfiles, Function.update_self]

/-- Nothing behind the export touches the file again. -/
theorem returns_finish {w w' : World} {status : ExitStatus} (hpath : options.dumpStatePath ≠ [])
    (h : Returns (finish env options cpu) w status w') :
    ∃ o, Prints (printArchitecturalStateJson cpu options.stateMemoryRanges) {} o ∧
      fileAt options.dumpStatePath w' = some (env.stores options.dumpStatePath o.text).2 := by
  rw [finish_eq, report_eq] at h
  obtain ⟨_, w₁, hreport, h⟩ := returns_bind_iff.mp h
  obtain ⟨_, w₂, -, hwrite⟩ := returns_bind_iff.mp hreport
  obtain ⟨o, hprints, hfile⟩ := returns_writeArchitecturalState hpath hwrite
  exact ⟨o, hprints, (verdict_keeps.returns h).trans hfile⟩

/-- The state exported is the one in which the loop has stopped. -/
theorem returns_mainBody {args : List Path} {w w' : World} {status : ExitStatus}
    (hparse : parseCli args = .ok options) (hhelp : options.showHelp = false)
    (hpath : options.dumpStatePath ≠ []) (h : Returns (mainBody env args) w status w') :
    ∃ m o, StopsIn env options m ∧
      Prints (printArchitecturalStateJson m.cpu options.stateMemoryRanges) {} o ∧
      fileAt options.dumpStatePath w' = some (env.stores options.dumpStatePath o.text).2 := by
  rw [mainBody_eq, hparse] at h
  obtain ⟨_, w₁, hoptions, h⟩ := returns_bind_iff.mp h
  cases hoptions
  rw [hhelp, if_neg Bool.false_ne_true] at h
  obtain ⟨m, w₂, hrun, hfinish⟩ := returns_bind_iff.mp h
  obtain ⟨o, hprints, hfile⟩ := returns_finish hpath hfinish
  exact ⟨m, o, (runProgram_yields _).mp ⟨w₂, hrun⟩, hprints, hfile⟩

/-- **No other file** is touched, and after a success the file holds what has been stored of
    the state in which the run has stopped: all of it, if the path stores faithfully. -/
theorem main_files {args : List Path} {w w' : World} {status : ExitStatus}
    (h : main env args w = some (status, w')) :
    (∀ path, fileAt path w' ≠ fileAt path w → ∃ options, parseCli args = .ok options ∧
      options.showHelp = false ∧ path = options.dumpStatePath ∧ path ≠ []) ∧
    (status = .success → ∀ options, parseCli args = .ok options → options.showHelp = false →
      options.dumpStatePath ≠ [] → ∃ m o, StopsIn env options m ∧
        Prints (printArchitecturalStateJson m.cpu options.stateMemoryRanges) {} o ∧
        fileAt options.dumpStatePath w' = some (env.stores options.dumpStatePath o.text).2 ∧
        (StoresFaithfully env options.dumpStatePath →
          fileAt options.dumpStatePath w' = some o.text)) := by
  obtain ⟨⟨r, w₁⟩, hbody, hmain⟩ := Option.map_eq_some_iff.mp h
  have hfiles : w'.files = w₁.files := by
    cases r <;> (cases hmain; rfl)
  constructor
  · intro path hne
    by_contra hno
    refine hne ?_
    have hkeeps : Keeps (fileAt path) (mainBody env args) := mainBody_keeps
      fun options hparse hhelp hpath heq => hno ⟨options, hparse, hhelp, heq, heq ▸ hpath⟩
    rw [fileAt, hfiles]
    exact hkeeps w r w₁ hbody
  · rintro rfl options hparse hhelp hpath
    obtain ⟨m, o, hstops, hprints, hfile⟩ :=
      returns_mainBody hparse hhelp hpath (main_eq_success_iff.mp h)
    refine ⟨m, o, hstops, hprints, hfile, fun hfaithful => ?_⟩
    rw [hfile, hfaithful]

end

/-- A system without files to read, on which every file can be written. -/
def emptySystem : Environment where
  executable := "simulator".toList
  contents := fun _ => none
  opens := fun _ => true
  stores := fun _ text => (true, text)
  cpi := fun _ => []
  ipc := fun _ => []
  accuracy := fun _ => []

/-- Run the built-in program, and export its first instruction. -/
def exportDemo : List Path :=
  ["--memory-size=16".toList, "--retire-count=3".toList, "--dump-state=state.json".toList,
    "--state-memory=0:4".toList]

theorem exportDemo_options : ∃ options, parseCli exportDemo = .ok options ∧
    options.showHelp = false ∧ options.dumpStatePath = "state.json".toList := by
  have h : (parseCli exportDemo).toOption.any (fun options =>
      !options.showHelp && options.dumpStatePath == "state.json".toList) = true := by
    decide +kernel
  cases hparse : parseCli exportDemo with
  | error e =>
    rw [hparse] at h
    cases h
  | ok options =>
    rw [hparse] at h
    change (!options.showHelp && options.dumpStatePath == _) = true at h
    rw [Bool.and_eq_true, Bool.not_eq_true', beq_iff_eq] at h
    exact ⟨options, rfl, h⟩

theorem exportDemo_succeeds : ∃ w', main emptySystem exportDemo {} = some (.success, w') := by
  have h : (main emptySystem exportDemo {}).any (fun x => x.1 == .success) = true := by
    decide +kernel
  obtain ⟨⟨status, w'⟩, hmain, hstatus⟩ := (Option.any_eq_true _ _).mp h
  rw [beq_iff_eq] at hstatus
  exact ⟨w', by rw [hmain, ← hstatus]⟩

theorem exportDemo_files : ∃ options w' m o, main emptySystem exportDemo {} = some (.success, w') ∧
    StopsIn emptySystem options m ∧
    Prints (printArchitecturalStateJson m.cpu options.stateMemoryRanges) {} o ∧
    fileAt "state.json".toList w' = some o.text := by
  obtain ⟨options, hparse, hhelp, hpath⟩ := exportDemo_options
  obtain ⟨w', hmain⟩ := exportDemo_succeeds
  obtain ⟨-, hfile⟩ := main_files hmain
  obtain ⟨m, o, hstops, hprints, -, hcontent⟩ :=
    hfile rfl options hparse hhelp (by rw [hpath]; decide)
  have hfaithful : StoresFaithfully emptySystem options.dumpStatePath := fun _ => rfl
  rw [hpath] at hcontent hfaithful
  exact ⟨options, w', m, o, hmain, hstops, hprints, hcontent hfaithful⟩

end RvPipeline
