import RvPipeline.Program.Output
import RvPipeline.Properties.Stop
import RvPipeline.Properties.WriteLog

/-!
# The exit status

The simulator parses, loads, runs, prints, exports and checks. When does it report
success, and does it always end?

Results:

* `simulate_yields`: the trace has no influence on the run.
* `main_succeeds_iff`: the exit status is success exactly if the run stops where it
  should and everything asked for can be done.
* `main_diverges_iff`: the simulator ends, unless it prints a memory dump whose rows
  wrap around.
-/

namespace RvPipeline

open Isa State

/-! ## The loop -/

section

variable {options : MainOptions} {m m' : Machine}

theorem clockCycles_lt_of_keepsRunning {options : CliOptions}
    (h : keepsRunning options m.cpu = true) : m.cpu.stats.clockCycles < options.maxCycles := by
  simp only [keepsRunning, Bool.and_eq_true, decide_eq_true_eq] at h
  exact h.2

theorem not_keepsRunning_of_le (h : options.maxCycles ≤ m.cpu.stats.clockCycles) :
    keepsRunning options.toCliOptions m.cpu = false := by
  rw [Bool.eq_false_iff]
  intro hk
  have hlt := clockCycles_lt_of_keepsRunning hk
  omega

theorem traceRound_total (options : MainOptions) (printed : ℕ) (m : Machine) :
    Total (traceRound options printed m) := by
  unfold traceRound
  split
  · exact (onCout_total (printPipelineTrace_total _ _)).bind fun _ => total_pure _
  · exact total_pure _

theorem cycle_ok (h : runPipelineCycle m = .ok () m') : cycle m = pure m' := by rw [cycle, h]

theorem cycle_error {e : OutOfRange} (h : runPipelineCycle m = .error e m') :
    cycle m = throw ⟨e.what⟩ := by rw [cycle, h]

/-- A loop that does not go on returns what it has got. -/
theorem yields_exit {p : MainM Machine} {x : EStateM.Result OutOfRange Machine Unit}
    (hp : p = pure m) (hx : x = .ok () m) : Yields p m' (x = .ok () m') := by
  rw [hp, hx]
  refine (yields_pure m m').congr ?_
  constructor
  · rintro rfl
    rfl
  · intro h
    cases h
    rfl

theorem simulate_exit (fuel printed : ℕ) (hk : keepsRunning options.toCliOptions m.cpu = false) :
    simulate options (fuel + 1) printed m = pure m := by
  rw [simulate, hk, if_neg Bool.false_ne_true]

/-- **The trace does not change the run**: with enough rounds, the loop of the simulator
    returns what the loop without the trace returns. -/
theorem simulate_yields (fuel printed : ℕ)
    (hfuel : options.maxCycles ≤ m.cpu.stats.clockCycles + fuel) :
    Yields (simulate options (fuel + 1) printed m) m'
      (runLoop options.toCliOptions fuel m = .ok () m') := by
  induction fuel generalizing printed m with
  | zero => exact yields_exit (simulate_exit 0 printed (not_keepsRunning_of_le hfuel)) rfl
  | succ fuel ih =>
    rw [runLoop_succ]
    cases hk : keepsRunning options.toCliOptions m.cpu with
    | false =>
      rw [if_neg Bool.false_ne_true]
      exact yields_exit (simulate_exit _ printed hk) rfl
    | true =>
      rw [simulate, hk, if_pos rfl, if_pos rfl]
      refine Yields.after (traceRound_total _ _ m) fun printed' => ?_
      cases hc : runPipelineCycle m with
      | ok a m₁ =>
        rw [cycle_ok hc, pure_bind]
        refine ih printed' ?_
        rw [clockCycles_cycle hc]
        omega
      | error e m₁ =>
        rw [cycle_error hc]
        refine (yields_throw (⟨e.what⟩ : RuntimeError) m').congr (iff_of_false id ?_)
        intro h
        cases h

/-- **The loop ends** within `max_cycles` rounds. -/
theorem simulate_ends (fuel printed : ℕ)
    (hfuel : options.maxCycles ≤ m.cpu.stats.clockCycles + fuel) :
    Ends (simulate options (fuel + 1) printed m) := by
  induction fuel generalizing printed m with
  | zero =>
    rw [simulate_exit 0 printed (not_keepsRunning_of_le hfuel)]
    exact ends_pure m
  | succ fuel ih =>
    cases hk : keepsRunning options.toCliOptions m.cpu with
    | false =>
      rw [simulate_exit _ printed hk]
      exact ends_pure m
    | true =>
      rw [simulate, hk, if_pos rfl]
      refine (traceRound_total _ _ m).ends.bind fun printed' => ?_
      cases hc : runPipelineCycle m with
      | ok a m₁ =>
        rw [cycle_ok hc, pure_bind]
        refine ih printed' ?_
        rw [clockCycles_cycle hc]
        omega
      | error e m₁ =>
        rw [cycle_error hc]
        exact ends_throw _

end

/-! ## Halting in time -/

section

variable {options : CliOptions} {m₀ m m' : Machine} {t : Trace}

/-- The loop never runs longer than it may. -/
theorem runLoop_clockCycles_le {fuel : ℕ} (h : runLoop options fuel m = .ok () m')
    (hm : m.cpu.stats.clockCycles ≤ options.maxCycles) :
    m'.cpu.stats.clockCycles ≤ options.maxCycles := by
  induction fuel generalizing m with
  | zero =>
    cases h
    exact hm
  | succ fuel ih =>
    rw [runLoop_succ] at h
    cases hk : keepsRunning options m.cpu with
    | false =>
      rw [hk] at h
      cases h
      exact hm
    | true =>
      rw [hk, if_pos rfl] at h
      cases hc : runPipelineCycle m with
      | ok a m₁ =>
        rw [hc] at h
        refine ih h ?_
        rw [clockCycles_cycle hc]
        exact clockCycles_lt_of_keepsRunning hk
      | error e m₁ =>
        rw [hc] at h
        cases h

/-- The bounds of the loop leave room for a run up to here. -/
structure InTime (options : CliOptions) (cpu : CPU) : Prop where
  clock : cpu.stats.clockCycles ≤ options.maxCycles
  count : options.hasRetireCount = true → cpu.stats.instructionCount ≤ options.retireCount

/-- The cycle in which the CPU halts retires an instruction. -/
theorem retires_of_halts (h₀ : Initial m₀) (h : Runs m₀ t m) (hrun : m.cpu.halted = false)
    (hcycle : runPipelineCycle m = .ok () m') (hhalted : m'.cpu.halted = true) :
    m'.cpu.stats.instructionCount = m.cpu.stats.instructionCount + 1 := by
  obtain ⟨g, hg⟩ := h.reached h₀
  have hnext := (hg.next hrun hcycle).inv.committed.halted
  rw [Slots.done_next, Slots.accessed, replay_halted_slot hg.inv.latches.memWb
    (fun _ _ hs => hs.control), ← hg.inv.committed.halted, hrun, hhalted, Bool.false_or] at hnext
  have hvalid : m.pipeline.memWb.valid = true := by
    have hboth := hnext.symm
    rw [Bool.and_eq_true] at hboth
    exact hboth.1
  have hcount := instructionCount_cycle m
  rw [hcycle, hvalid] at hcount
  exact hcount

/-- The loop follows a run that has not used up its cycles, as long as the target has not been
    reached before. -/
theorem Runs.runLoop (h₀ : Initial m₀) (h : Runs m₀ t m)
    (hclock : m.cpu.stats.clockCycles ≤ options.maxCycles)
    (hcount : options.hasRetireCount = true →
      m.cpu.stats.instructionCount < options.retireCount ∨
        m.cpu.halted = true ∧ m.cpu.stats.instructionCount ≤ options.retireCount) :
    ∃ k, m.cpu.stats.clockCycles = m₀.cpu.stats.clockCycles + k ∧
      ∀ j, RvPipeline.runLoop options (k + j) m₀ = RvPipeline.runLoop options j m := by
  induction h with
  | start => exact ⟨0, rfl, fun j => by rw [Nat.zero_add]⟩
  | @cycle t m m' hm hh hc ih =>
    have hstep := clockCycles_cycle hc
    have hretired : m.cpu.stats.instructionCount ≤ m'.cpu.stats.instructionCount := by
      have hadd := instructionCount_cycle m
      rw [hc] at hadd
      exact (Nat.le_add_right _ _).trans (Nat.le_of_eq hadd.symm)
    have hbelow : options.hasRetireCount = true →
        m.cpu.stats.instructionCount < options.retireCount := by
      intro hret
      rcases hcount hret with hlt | ⟨hhalted, hle⟩
      · omega
      · have hone := retires_of_halts h₀ hm hh hc hhalted
        omega
    obtain ⟨k, hk, hloop⟩ := ih (by omega) fun hret => Or.inl (hbelow hret)
    refine ⟨k + 1, by omega, fun j => ?_⟩
    have hgoes : keepsRunning options m.cpu = true := by
      have hlt : m.cpu.stats.clockCycles < options.maxCycles := by omega
      unfold keepsRunning
      cases hret : options.hasRetireCount with
      | false => simp [hh, hlt]
      | true => simp [hh, hlt, hbelow hret]
    rw [Nat.add_assoc, Nat.add_comm 1 j, hloop, runLoop_succ, hgoes, if_pos rfl, hc]

theorem runLoop_of_halted (h : m.cpu.halted = true) (fuel : ℕ) :
    runLoop options fuel m = .ok () m := by
  cases fuel with
  | zero => rfl
  | succ fuel =>
    have hstops : keepsRunning options m.cpu = false := by
      rw [keepsRunning, h, Bool.not_true, Bool.false_and, Bool.false_and]
    rw [runLoop_succ, hstops, if_neg Bool.false_ne_true]

/-- **The loop halts in time** exactly if the pipeline does. -/
theorem runLoop_halts_iff (h₀ : Initial m₀) (hstats : m₀.cpu.stats = {}) :
    runLoop options options.maxCycles m₀ = .ok () m ∧ m.cpu.halted = true ↔
      (∃ t, HaltsIn m₀ t m) ∧ InTime options m.cpu := by
  have hclock₀ : m₀.cpu.stats.clockCycles = 0 := by rw [hstats]
  have hcount₀ : m₀.cpu.stats.instructionCount = 0 := by rw [hstats]
  constructor
  · rintro ⟨hrun, hhalted⟩
    obtain ⟨⟨t, ht⟩, -⟩ := runLoop_exit hrun .start
    exact ⟨⟨t, ht, hhalted⟩, runLoop_clockCycles_le hrun (by omega),
      fun hret => runLoop_instructionCount_le hret hrun (by omega)⟩
  · rintro ⟨⟨t, ht, hhalted⟩, htime⟩
    obtain ⟨k, hk, hloop⟩ :=
      ht.runLoop h₀ htime.clock fun hret => Or.inr ⟨hhalted, htime.count hret⟩
    obtain ⟨j, hj⟩ := Nat.exists_eq_add_of_le htime.clock
    rw [hk, hclock₀, Nat.zero_add] at hj
    exact ⟨by rw [hj, hloop, runLoop_of_halted hhalted], hhalted⟩

end

/-! ## The writes of a run -/

/-- What is recorded lies in memory, at any time. -/
theorem Runs.writesInBounds {m₀ m : Machine} {t : Trace} (h : Runs m₀ t m) (h₀ : Initial m₀)
    (hempty : m₀.cpu.memoryWrites = []) :
    m.cpu.WritesInBounds ∧ m.cpu.memorySize = m₀.cpu.memorySize := by
  obtain ⟨g, hg⟩ := h.reached h₀
  have hmem : m.cpu.memory = (replay instrOf (archOf m₀.cpu) g.accessed).mem := hg.inv.committed.mem
  have hsize : m.cpu.memorySize = (archOf m₀.cpu).mem.length := by
    rw [CPU.memorySize, hmem]
    exact replay_mem_length _ _ _
  refine ⟨?_, hsize⟩
  rw [CPU.WritesInBounds, hsize, hg.account.log, hempty, List.nil_append]
  exact storeLog_inBounds hg.account.faultFree

/-- A booted machine is about to run, with an empty log. -/
structure Boots (options : MainOptions) (program : LoadedProgram) (m₀ : Machine) : Prop where
  loads : CPU.loadProgram program.bytes options.loadAddress
    (CPU.new options.memorySize.toNat options.config) = .ok () m₀.cpu
  pipeline : m₀.pipeline = {}

/-- The program that `main` runs: the built-in one, or an image that can be opened and
    consists of whole words. -/
def Image (env : Environment) (options : MainOptions) (program : LoadedProgram) : Prop :=
  if options.programPath = [] then program = makeDemoProgram
  else loadBinaryProgram env options.programPath = .ok program

section

variable {env : Environment} {options : MainOptions} {program : LoadedProgram} {m₀ m : Machine}
  {cpu : CPU}

theorem makeDemoProgram_bytes : makeDemoProgram.bytes ≠ [] := by decide

/-- An image is not empty. -/
theorem Image.bytes_ne_nil (h : Image env options program) : program.bytes ≠ [] := by
  unfold Image at h
  split at h
  · rw [h]
    exact makeDemoProgram_bytes
  · unfold loadBinaryProgram at h
    cases hbytes : env.contents options.programPath with
    | none =>
      rw [hbytes] at h
      cases h
    | some bytes =>
      rw [hbytes] at h
      simp only at h
      split_ifs at h with hempty hwords
      cases h
      exact hempty

theorem Boots.initial (h : Boots options program m₀) (hne : program.bytes ≠ []) : Initial m₀ :=
  ⟨h.pipeline, (loadProgram_ok hne h.loads).2.1⟩

theorem Boots.memoryWrites (h : Boots options program m₀) (hne : program.bytes ≠ []) :
    m₀.cpu.memoryWrites = [] := (loadProgram_ok hne h.loads).1

theorem Boots.memorySize (h : Boots options program m₀) (hne : program.bytes ≠ []) :
    m₀.cpu.memorySize = options.memorySize.toNat :=
  (loadProgram_ok hne h.loads).2.2.trans List.length_replicate

theorem boot_yields : Yields (boot options program) m (Boots options program m) := by
  unfold boot
  cases h : CPU.loadProgram program.bytes options.loadAddress
      (CPU.new options.memorySize.toNat options.config) with
  | ok a cpu =>
    refine (yields_pure _ m).congr ?_
    constructor
    · rintro rfl
      exact ⟨h, rfl⟩
    · rintro ⟨hloads, hpipeline⟩
      rw [h] at hloads
      cases hloads
      obtain ⟨cpu, pipeline⟩ := m
      exact congrArg _ hpipeline.symm
  | error e cpu =>
    refine (yields_throw _ _).congr (iff_of_false id ?_)
    rintro ⟨hloads, -⟩
    rw [h] at hloads
    cases hloads

theorem boot_ends (options : MainOptions) (program : LoadedProgram) :
    Ends (boot options program) := by
  unfold boot
  split
  · exact ends_pure _
  · exact ends_throw _

theorem loadImage_yields : Yields (loadImage env options) program (Image env options program) := by
  unfold loadImage Image
  by_cases hpath : options.programPath = []
  · rw [if_pos hpath, if_pos hpath]
    refine Yields.after ((print_total _).bind fun _ => printDemoInstructions_total _ _) fun _ => ?_
    exact (yields_pure makeDemoProgram program).congr eq_comm
  · rw [if_neg hpath, if_neg hpath]
    refine (Yields.bind (fun a => yields_ofExcept _ a) fun a _ =>
      Yields.after (print_total _) fun _ => yields_pure a program).congr ?_
    simp only [exists_eq_right]

theorem loadImage_ends (env : Environment) (options : MainOptions) :
    Ends (loadImage env options) := by
  unfold loadImage
  split
  · exact ((print_total _).bind fun _ => printDemoInstructions_total _ _).ends.bind fun _ =>
      ends_pure _
  · exact (ends_ofExcept _).bind fun _ => (print_total _).ends.bind fun _ => ends_pure _

/-! ## Behind the loop -/

/-- Nothing is to be exported, or the file can be opened and takes all of the text. -/
def Exports (env : Environment) (options : MainOptions) (cpu : CPU) : Prop :=
  options.dumpStatePath = [] ∨
    env.opens options.dumpStatePath = true ∧
      ∃ o, Prints (printArchitecturalStateJson cpu options.stateMemoryRanges) {} o ∧
        (env.stores options.dumpStatePath o.text).1 = true

theorem writeArchitecturalState_yields :
    Yields (writeArchitecturalState env options cpu) () (Exports env options cpu) := by
  unfold writeArchitecturalState Exports
  simp only
  by_cases hpath : options.dumpStatePath = []
  · rw [if_pos hpath]
    exact (yields_pure () ()).congr (iff_of_true rfl (.inl hpath))
  · rw [if_neg hpath]
    cases hopens : env.opens options.dumpStatePath with
    | false =>
      rw [if_pos (by rfl)]
      refine (yields_throw _ _).congr (iff_of_false id ?_)
      rintro (h | ⟨h, -⟩)
      · exact hpath h
      · cases h
    | true =>
      rw [if_neg (by decide)]
      refine (Yields.bind (fun _ => toFile_yields) fun good _ =>
        (yields_ite (fun _ => yields_throw _ ()) fun _ => (print_total _).yields)).congr ?_
      constructor
      · rintro ⟨good, ⟨o, ho, rfl⟩, ⟨-, hf⟩ | ⟨hgood, -⟩⟩
        · exact hf.elim
        · refine .inr ⟨rfl, o, ho, ?_⟩
          simpa using hgood
      · rintro (h | ⟨-, o, ho, hgood⟩)
        · exact absurd h hpath
        · exact ⟨_, ⟨o, ho, rfl⟩, .inr ⟨by simp [hgood], trivial⟩⟩

theorem writeArchitecturalState_ends (hsize : cpu.memorySize < 2 ^ 32) :
    Ends (writeArchitecturalState env options cpu) := by
  unfold writeArchitecturalState
  simp only
  split
  · exact ends_pure _
  split
  · exact ends_throw _
  refine (toFile_ends (printArchitecturalStateJson_ends hsize _)).bind fun good => ?_
  split
  · exact ends_throw _
  · exact (print_total _).ends

/-- A dump that is not asked for, or whose range fits. -/
def Dumps (options : MainOptions) (cpu : CPU) : Prop :=
  options.dumpMemory = true → DumpFits cpu options.dumpMemoryStart options.dumpMemoryLength

theorem onlyIf_total {p : MainM Unit} (h : Total p) (b : Bool) :
    Total (onlyIf b p) := by
  unfold onlyIf
  split
  · exact h
  · exact total_pure _

theorem dump_yields (hsize : cpu.memorySize < 2 ^ 32) :
    Yields (onlyIf options.dumpMemory
        (onCout (printMemoryDump cpu options.dumpMemoryStart options.dumpMemoryLength))) ()
      (Dumps options cpu) := by
  unfold Dumps onlyIf
  refine (yields_ite (fun _ => onCout_yields (printMemoryDump_yields hsize))
    fun _ => yields_pure () ()).congr ?_
  cases options.dumpMemory <;> simp

theorem dump_diverges (hsize : cpu.memorySize < 2 ^ 32) :
    Diverges (onlyIf options.dumpMemory
        (onCout (printMemoryDump cpu options.dumpMemoryStart options.dumpMemoryLength)))
      (options.dumpMemory = true ∧
        DumpEndless cpu options.dumpMemoryStart options.dumpMemoryLength) := by
  unfold onlyIf
  refine (diverges_ite (fun _ => onCout_diverges (printMemoryDump_diverges hsize))
    fun _ => (ends_pure ()).diverges).congr ?_
  simp

theorem report_yields (hsize : cpu.memorySize < 2 ^ 32) (hb : cpu.WritesInBounds) :
    Yields (report env options cpu) () (Dumps options cpu ∧ Exports env options cpu) := by
  unfold report
  refine Yields.after (printRegisters_total cpu) fun _ => ?_
  refine Yields.after (printStats_total env cpu) fun _ => ?_
  refine Yields.after (onlyIf_total (onCout_total (printRegisterDump_total cpu)) _) fun _ => ?_
  refine Yields.seq (dump_yields hsize) fun _ => ?_
  refine Yields.after (onlyIf_total (onCout_total (printWrittenMemoryDump_total hsize hb)) _) ?_
  exact fun _ => writeArchitecturalState_yields

theorem report_diverges (hsize : cpu.memorySize < 2 ^ 32) (hb : cpu.WritesInBounds) :
    Diverges (report env options cpu) (options.dumpMemory = true ∧
      DumpEndless cpu options.dumpMemoryStart options.dumpMemoryLength) := by
  unfold report
  refine Diverges.after (printRegisters_total cpu) fun _ => ?_
  refine Diverges.after (printStats_total env cpu) fun _ => ?_
  refine Diverges.after (onlyIf_total (onCout_total (printRegisterDump_total cpu)) _) fun _ => ?_
  refine (dump_diverges hsize).before fun _ => ?_
  exact (onlyIf_total (onCout_total (printWrittenMemoryDump_total hsize hb)) _).ends.bind fun _ =>
    writeArchitecturalState_ends hsize

/-! ## Expectations -/

/-- All expectations are met. -/
def Expected (cpu : CPU) (checks : List MemoryExpectation) : Prop :=
  ∀ check ∈ checks, cpu.readU32 check.address = .ok check.expectedValue

theorem checkExpectation_yields {check : MemoryExpectation} {b : Bool} :
    Yields (checkExpectation cpu check) b
      (∃ actual, cpu.readU32 check.address = .ok actual ∧
        decide (actual = check.expectedValue) = b) := by
  unfold checkExpectation
  refine Yields.bind (fun actual => onCout_yields (yields_ofExcept _ actual)) fun actual _ => ?_
  exact Yields.after (print_total _) fun _ => yields_pure _ b

theorem checkExpectation_ends (cpu : CPU) (check : MemoryExpectation) :
    Ends (checkExpectation cpu check) :=
  (onCout_ends (ends_ofExcept _)).bind fun _ => (print_total _).ends.bind fun _ => ends_pure _

/-- One round of the loop over the expectations. -/
theorem expectationRound_yields {check : MemoryExpectation} {allPassed b : Bool} :
    Yields (do return allPassed && (← checkExpectation cpu check) : MainM Bool) b
      (∃ passed, (∃ actual, cpu.readU32 check.address = .ok actual ∧
        decide (actual = check.expectedValue) = passed) ∧ (allPassed && passed) = b) :=
  Yields.bind (fun _ => checkExpectation_yields) fun _ _ => yields_pure _ b

theorem expectations_yields (checks : List MemoryExpectation) (allPassed : Bool) :
    Yields (checks.foldlM (fun allPassed check => do
        return allPassed && (← checkExpectation cpu check)) allPassed : MainM Bool) true
      (allPassed = true ∧ Expected cpu checks) := by
  induction checks generalizing allPassed with
  | nil =>
    refine (yields_pure allPassed true).congr ?_
    exact ⟨fun h => ⟨h, fun check hc => absurd hc List.not_mem_nil⟩, fun h => h.1⟩
  | cons check checks ih =>
    rw [List.foldlM_cons]
    refine (Yields.bind (fun _ => expectationRound_yields) fun b _ => ih b).congr ?_
    unfold Expected
    rw [List.forall_mem_cons]
    constructor
    · rintro ⟨b, ⟨passed, ⟨actual, hread, hpassed⟩, hb⟩, hall, hrest⟩
      rw [hall, Bool.and_eq_true] at hb
      rw [hb.2, decide_eq_true_eq] at hpassed
      exact ⟨hb.1, hpassed ▸ hread, hrest⟩
    · rintro ⟨hall, hread, hrest⟩
      exact ⟨true, ⟨true, ⟨_, hread, decide_eq_true rfl⟩, by rw [hall]; rfl⟩, rfl, hrest⟩

theorem checkMemoryExpectations_yields (checks : List MemoryExpectation) :
    Yields (checkMemoryExpectations cpu checks) true (Expected cpu checks) := by
  unfold checkMemoryExpectations
  split
  · next h =>
    refine (yields_pure true true).congr (iff_of_true rfl ?_)
    rw [h]
    exact fun check hc => absurd hc List.not_mem_nil
  · refine Yields.after (print_total _) fun _ => ?_
    exact (expectations_yields checks true).congr (and_iff_right rfl)

theorem checkMemoryExpectations_ends (cpu : CPU) (checks : List MemoryExpectation) :
    Ends (checkMemoryExpectations cpu checks) := by
  unfold checkMemoryExpectations
  split
  · exact ends_pure _
  · exact (print_total _).ends.bind fun _ => ends_foldlM
      (fun _ _ => (checkExpectation_ends _ _).bind fun _ => ends_pure _) _

end

/-! ## `main` -/

section

variable {env : Environment} {args : List Path} {options : MainOptions} {m : Machine}

/-- The loop has stopped where it should. -/
def Complete (options : MainOptions) (cpu : CPU) : Prop :=
  cpu.halted = true ∨ reachedTarget options.toCliOptions cpu = true

/-- The run that the options ask for stops in `m`. -/
def StopsIn (env : Environment) (options : MainOptions) (m : Machine) : Prop :=
  ∃ program m₀, Image env options program ∧ Boots options program m₀ ∧
    runLoop options.toCliOptions options.maxCycles m₀ = .ok () m

/-- At the end of a run, memory has the size asked for, and the log lies inside. -/
theorem StopsIn.cpu (h : StopsIn env options m) :
    m.cpu.memorySize < 2 ^ 32 ∧ m.cpu.WritesInBounds := by
  obtain ⟨program, m₀, himage, hboots, hrun⟩ := h
  have hne := himage.bytes_ne_nil
  obtain ⟨⟨t, ht⟩, -⟩ := runLoop_exit hrun .start
  obtain ⟨hb, hsize⟩ := ht.writesInBounds (hboots.initial hne) (hboots.memoryWrites hne)
  rw [hsize, hboots.memorySize hne]
  exact ⟨options.memorySize.isLt, hb⟩

/-- Load, boot and run. -/
def runProgram (env : Environment) (options : MainOptions) : MainM Machine := do
  let program ← loadImage env options
  let m ← boot options program
  printRunOptions options
  simulate options (options.maxCycles + 1) 0 m

theorem runProgram_yields : Yields (runProgram env options) m (StopsIn env options m) := by
  unfold runProgram
  refine Yields.congr (c := ∃ program, Image env options program ∧ ∃ m₀, Boots options program m₀ ∧
    runLoop options.toCliOptions options.maxCycles m₀ = .ok () m) ?_ ?_
  · refine Yields.bind (fun _ => loadImage_yields) fun program _ => ?_
    refine Yields.bind (fun _ => boot_yields) fun m₀ _ => ?_
    refine Yields.after (printRunOptions_total options) fun _ => ?_
    exact simulate_yields options.maxCycles 0 (Nat.le_add_left _ _)
  · simp only [StopsIn, exists_and_left]

theorem runProgram_ends (env : Environment) (options : MainOptions) :
    Ends (runProgram env options) := by
  unfold runProgram
  refine (loadImage_ends env options).bind fun program => ?_
  refine (boot_ends options program).bind fun m₀ => ?_
  refine (printRunOptions_total options).ends.bind fun _ => ?_
  exact simulate_ends options.maxCycles 0 (Nat.le_add_left _ _)

/-- Report, check and decide. -/
def finish (env : Environment) (options : MainOptions) (cpu : CPU) : MainM ExitStatus := do
  report env options cpu
  let memoryExpectationsPassed ← checkMemoryExpectations cpu options.memoryExpectations
  if !cpu.halted && !reachedTarget options.toCliOptions cpu then
    modify fun w => { w with
      cerr := w.cerr ++ "\nSimulation stopped before all instructions retired\n".toList }
    return .failure
  else if !memoryExpectationsPassed then
    return .failure
  else return .success

theorem mainBody_eq (env : Environment) (args : List Path) : mainBody env args = (do
    let options ← MonadExcept.ofExcept (parseCli args)
    if options.showHelp then
      printUsage env.executable
      return .success
    else
      let m ← runProgram env options
      finish env options m.cpu) := by
  unfold mainBody runProgram
  simp only [bind_assoc]
  rfl

/-- What has to be possible, and true, behind the loop. -/
structure Accepted (env : Environment) (options : MainOptions) (cpu : CPU) : Prop where
  complete : Complete options cpu
  dumps : Dumps options cpu
  exports : Exports env options cpu
  expected : Expected cpu options.memoryExpectations

/-- The last lines of `main`. -/
def decideStatus (options : MainOptions) (cpu : CPU) (memoryExpectationsPassed : Bool) :
    MainM ExitStatus := do
  if !cpu.halted && !reachedTarget options.toCliOptions cpu then
    modify fun w => { w with
      cerr := w.cerr ++ "\nSimulation stopped before all instructions retired\n".toList }
    return .failure
  else if !memoryExpectationsPassed then
    return .failure
  else return .success

theorem decideStatus_yields {cpu : CPU} {passed : Bool} :
    Yields (decideStatus options cpu passed) .success (Complete options cpu ∧ passed = true) := by
  have hfailure : Yields (pure .failure : MainM ExitStatus) .success False :=
    (yields_pure ExitStatus.failure .success).congr (iff_of_false (fun h => by cases h) id)
  unfold decideStatus Complete
  cases cpu.halted with
  | false =>
    cases reachedTarget options.toCliOptions cpu with
    | false =>
      refine (Yields.after (total_modify _) fun _ => hfailure).congr (iff_of_false id ?_)
      rintro ⟨h | h, -⟩ <;> cases h
    | true =>
      cases passed with
      | false => exact hfailure.congr (iff_of_false id fun h => by cases h.2)
      | true => exact (yields_pure _ _).congr (iff_of_true rfl ⟨.inr rfl, rfl⟩)
  | true =>
    cases passed with
    | false => exact hfailure.congr (iff_of_false id fun h => by cases h.2)
    | true => exact (yields_pure _ _).congr (iff_of_true rfl ⟨.inl rfl, rfl⟩)

theorem decideStatus_ends (options : MainOptions) (cpu : CPU) (passed : Bool) :
    Ends (decideStatus options cpu passed) := by
  unfold decideStatus
  split
  · exact (total_modify _).ends.bind fun _ => ends_pure _
  split
  · exact ends_pure _
  · exact ends_pure _

theorem finish_eq (env : Environment) (options : MainOptions) (cpu : CPU) :
    finish env options cpu = (report env options cpu >>= fun _ =>
      checkMemoryExpectations cpu options.memoryExpectations >>= decideStatus options cpu) := rfl

theorem finish_yields {cpu : CPU} (hsize : cpu.memorySize < 2 ^ 32) (hb : cpu.WritesInBounds) :
    Yields (finish env options cpu) .success (Accepted env options cpu) := by
  rw [finish_eq]
  refine Yields.congr (c := (Dumps options cpu ∧ Exports env options cpu) ∧
    Expected cpu options.memoryExpectations ∧ Complete options cpu) ?_ ?_
  · refine Yields.seq (report_yields hsize hb) fun _ => ?_
    refine Yields.bind_of (checkMemoryExpectations_yields _) (fun _ => ?_) fun passed hne => ?_
    · exact decideStatus_yields.congr (and_iff_left rfl)
    · exact decideStatus_yields.congr (iff_of_false (fun h => hne h.2) id)
  · constructor
    · rintro ⟨⟨hdumps, hexports⟩, hexpected, hcomplete⟩
      exact ⟨hcomplete, hdumps, hexports, hexpected⟩
    · rintro ⟨hcomplete, hdumps, hexports, hexpected⟩
      exact ⟨⟨hdumps, hexports⟩, hexpected, hcomplete⟩

theorem finish_diverges {cpu : CPU} (hsize : cpu.memorySize < 2 ^ 32) (hb : cpu.WritesInBounds) :
    Diverges (finish env options cpu) (options.dumpMemory = true ∧
      DumpEndless cpu options.dumpMemoryStart options.dumpMemoryLength) := by
  rw [finish_eq]
  refine (report_diverges hsize hb).before fun _ => ?_
  exact (checkMemoryExpectations_ends _ _).bind fun passed => decideStatus_ends _ _ passed

/-- Parse, and show the help or run. -/
theorem mainBody_yields : Yields (mainBody env args) .success
    (∃ options, parseCli args = .ok options ∧ (options.showHelp = true ∨
      options.showHelp = false ∧ ∃ m, StopsIn env options m ∧ Accepted env options m.cpu)) := by
  rw [mainBody_eq]
  refine Yields.bind (fun options => yields_ofExcept _ options) fun options _ => ?_
  cases hhelp : options.showHelp with
  | true =>
    rw [if_pos rfl]
    refine (Yields.after (printUsage_total _) fun _ => yields_pure _ _).congr ?_
    exact iff_of_true rfl (.inl rfl)
  | false =>
    rw [if_neg Bool.false_ne_true]
    refine (Yields.bind (fun _ => runProgram_yields) fun m hm =>
      finish_yields hm.cpu.1 hm.cpu.2).congr ?_
    simp only [Bool.false_eq_true, false_or, true_and]

theorem mainBody_diverges : Diverges (mainBody env args)
    (∃ options, parseCli args = .ok options ∧ options.showHelp = false ∧
      ∃ m, StopsIn env options m ∧ options.dumpMemory = true ∧
        DumpEndless m.cpu options.dumpMemoryStart options.dumpMemoryLength) := by
  rw [mainBody_eq]
  refine (ends_ofExcept _).diverges_bind (fun options => yields_ofExcept _ options)
    fun options _ => ?_
  cases hhelp : options.showHelp with
  | true =>
    rw [if_pos rfl]
    refine ((printUsage_total _).ends.bind fun _ => ends_pure _).diverges.congr ?_
    exact iff_of_false id fun h => by cases h.1
  | false =>
    rw [if_neg Bool.false_ne_true]
    refine ((runProgram_ends _ _).diverges_bind (fun _ => runProgram_yields) fun m hm =>
      finish_diverges hm.cpu.1 hm.cpu.2).congr ?_
    simp only [true_and]

/-- A success is one of the `try` block. -/
theorem main_eq_success_iff {w w' : World} :
    main env args w = some (.success, w') ↔ Returns (mainBody env args) w .success w' := by
  constructor
  · intro h
    obtain ⟨⟨r, w''⟩, hr, hw⟩ := Option.map_eq_some_iff.mp h
    cases r with
    | error e => cases hw
    | ok status =>
      cases hw
      exact hr
  · intro h
    unfold main
    rw [show (mainBody env args).run.run w = _ from h]
    rfl

/-- **The exit status is success** exactly if the command line is accepted and either asks for
    help, or for a run that stops at a halt or at its target, with every dump and the export
    possible and every expectation met. -/
theorem main_succeeds_iff (env : Environment) (args : List Path) (w : World) :
    (∃ w', main env args w = some (.success, w')) ↔
      ∃ options, parseCli args = .ok options ∧ (options.showHelp = true ∨
        options.showHelp = false ∧
          ∃ m, StopsIn env options m ∧ Accepted env options m.cpu) := by
  rw [← mainBody_yields w]
  exact exists_congr fun w' => main_eq_success_iff

/-- **The simulator ends**, except for a memory dump whose rows wrap around: then it never
    ends. -/
theorem main_diverges_iff (env : Environment) (args : List Path) (w : World) :
    main env args w = none ↔
      ∃ options, parseCli args = .ok options ∧ options.showHelp = false ∧
        ∃ m, StopsIn env options m ∧ options.dumpMemory = true ∧
          DumpEndless m.cpu options.dumpMemoryStart options.dumpMemoryLength := by
  rw [← mainBody_diverges w]
  exact Option.map_eq_none_iff

end

end RvPipeline
