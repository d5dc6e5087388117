import RvPipeline.Properties.CommandLine
import RvPipeline.Properties.ProgramLogic
import RvPipeline.Properties.Reachable

/-!
# The bound on the cycles

`--max-cycles` is there to end a run that does not end by itself. A run that does is not
touched by the bound: with a higher one, it stops in the same state. And since the bound is
a 64-bit number, no statistic of a run below it can wrap around.

Results:

* `runLoop_of_complete`: the loop, from any state on.
* `counters_fit`: in every round of the loop the counters are below `2 ^ 64`.
* `more_cycles_succeed`: a command line that succeeds also does with a higher bound appended,
  and writes the same files.
-/

namespace RvPipeline

open Isa State Text

/-! ## The loop -/

section

variable {options : CliOptions} {m m' : Machine} {k n : ℕ}

/-- The loop does not run a CPU that has halted or reached the target, whatever the bound. -/
theorem not_keepsRunning_of_complete (h : m.cpu.halted = true ∨ reachedTarget options m.cpu = true)
    (n : ℕ) : keepsRunning { options with maxCycles := n } m.cpu = false := by
  unfold keepsRunning
  rcases h with hh | hr
  · rw [hh]
    rfl
  · rw [reachedTarget, Bool.and_eq_true, decide_eq_true_eq] at hr
    simp [hr.1, Nat.not_lt.mpr hr.2]

/-- A round below the bound is one below a higher bound. -/
theorem keepsRunning_mono (h : keepsRunning options m.cpu = true) (hn : options.maxCycles ≤ n) :
    keepsRunning { options with maxCycles := n } m.cpu = true := by
  unfold keepsRunning at h ⊢
  simp only [Bool.and_eq_true, decide_eq_true_eq] at h ⊢
  exact ⟨h.1, Nat.lt_of_lt_of_le h.2 hn⟩

theorem runLoop_stops (h : keepsRunning options m.cpu = false) (fuel : ℕ) :
    runLoop options fuel m = .ok () m := by
  cases fuel with
  | zero => rfl
  | succ fuel => rw [runLoop_succ, h, if_neg Bool.false_ne_true]

/-- **The loop** stops in the same state with a higher bound, if it is not the bound that has
    stopped it. -/
theorem runLoop_of_complete (hrun : runLoop options k m = .ok () m')
    (hm : m'.cpu.halted = true ∨ reachedTarget options m'.cpu = true)
    (hn : options.maxCycles ≤ n) {j : ℕ} (hj : k ≤ j) :
    runLoop { options with maxCycles := n } j m = .ok () m' := by
  induction k generalizing m j with
  | zero =>
    cases hrun
    exact runLoop_stops (not_keepsRunning_of_complete hm n) j
  | succ k ih =>
    cases hk : keepsRunning options m.cpu with
    | false =>
      rw [runLoop_stops hk] at hrun
      cases hrun
      exact runLoop_stops (not_keepsRunning_of_complete hm n) j
    | true =>
      obtain ⟨j, rfl⟩ := Nat.exists_eq_add_of_le' (Nat.le_trans (Nat.le_add_left 1 k) hj)
      rw [runLoop_succ, hk, if_pos rfl] at hrun
      rw [runLoop_succ, keepsRunning_mono hk hn, if_pos rfl]
      cases hc : runPipelineCycle m with
      | ok a m₁ =>
        rw [hc] at hrun
        exact ih hrun (Nat.le_of_succ_le_succ hj)
      | error e m₁ =>
        rw [hc] at hrun
        cases hrun

end

/-! ## The command line -/

section

variable {env : Environment} {args : List Path} {options : MainOptions} {m : Machine} {n : ℕ}

/-- **The counters fit** into `uint64_t` in front of every round of the loop and behind the
    last one, whatever the command line. -/
theorem counters_fit {program : LoadedProgram} {m₀ : Machine} {rounds : ℕ}
    (hparse : parseCli args = .ok options) (himage : Image env options program)
    (hboots : Boots options program m₀)
    (hrun : runLoop options.toCliOptions rounds m₀ = .ok () m) : m.cpu.stats.Fit := by
  have hne := himage.bytes_ne_nil
  have hstats := hboots.stats hne
  obtain ⟨⟨t, ht⟩, -⟩ := runs_of_runLoop hrun .start
  have hclock : m.cpu.stats.clockCycles ≤ options.maxCycles := by
    refine runLoop_clockCycles_le hrun ?_
    rw [hstats]
    exact Nat.zero_le _
  exact ht.fit (hboots.initial hne) hstats (hclock.trans_lt (maxCycles_lt hparse))

theorem StopsIn.more_cycles (h : StopsIn env options m) (hm : Complete options m.cpu)
    (hn : options.maxCycles ≤ n) : StopsIn env { options with maxCycles := n } m := by
  obtain ⟨program, m₀, himage, hboots, hrun⟩ := h
  exact ⟨program, m₀, himage, ⟨hboots.loads, hboots.pipeline⟩, runLoop_of_complete hrun hm hn hn⟩

/-- A bound at the end of the command line takes the place of the one before. -/
theorem parseCli_append_maxCycles {text : List Char} (h : parseCli args = .ok options)
    (htext : Numeral 10 text n) : parseCli (args ++ ["--max-cycles=".toList ++ text]) =
      .ok { options with maxCycles := n } := by
  unfold parseCli at h ⊢
  obtain ⟨options', hargs, hcheck⟩ := State.bind_eq_ok_iff.mp h
  refine State.bind_eq_ok_iff.mpr ⟨{ options' with maxCycles := n }, ?_, ?_⟩
  · rw [List.foldlM_append]
    refine State.bind_eq_ok_iff.mpr ⟨options', hargs, ?_⟩
    rw [foldlM_parseArg_singleton]
    exact (Means.maxCycles htext).parseArg (allowed_of_ne rfl)
  · rcases ite_cases hcheck with ⟨-, hthrow⟩ | ⟨hfile, hreturn⟩
    · cases hthrow
    · cases hreturn
      exact if_neg hfile

/-- A file that `main` does not export to stays as it is. -/
theorem fileAt_of_returns {w w' : World} {status : ExitStatus} {path : Path}
    (h : Returns (mainBody env args) w status w') (hparse : parseCli args = .ok options)
    (hpath : options.showHelp = false → options.dumpStatePath ≠ [] →
      path ≠ options.dumpStatePath) : fileAt path w' = fileAt path w := by
  refine Keeps.returns (mainBody_keeps fun options' hparse' hhelp hdump => ?_) h
  rw [hparse] at hparse'
  cases hparse'
  exact hpath hhelp hdump

/-- **A higher bound does no harm**: a command line that succeeds also does with a higher
    `--max-cycles` appended, and leaves the same files behind. -/
theorem more_cycles_succeed {text : List Char} {w w₁ : World} (hparse : parseCli args = .ok options)
    (htext : Numeral 10 text n) (hn : options.maxCycles ≤ n)
    (h : main env args w = some (.success, w₁)) :
    ∃ w₂, main env (args ++ ["--max-cycles=".toList ++ text]) w = some (.success, w₂) ∧
      w₂.files = w₁.files := by
  have hparse' := parseCli_append_maxCycles hparse htext
  have hbody := main_eq_success_iff.mp h
  obtain ⟨options', hoptions, hcase⟩ := (mainBody_yields w).mp ⟨w₁, hbody⟩
  rw [hparse] at hoptions
  cases hoptions
  have hsucceeds : ∃ w₂, Returns
      (mainBody env (args ++ ["--max-cycles=".toList ++ text])) w .success w₂ := by
    refine (mainBody_yields w).mpr ⟨_, hparse', ?_⟩
    rcases hcase with hhelp | ⟨hhelp, m, hstops, haccepted⟩
    · exact Or.inl hhelp
    · refine Or.inr ⟨hhelp, m, hstops.more_cycles haccepted.complete hn, ?_⟩
      exact ⟨haccepted.complete, haccepted.dumps, haccepted.exports, haccepted.expected⟩
  obtain ⟨w₂, hbody₂⟩ := hsucceeds
  refine ⟨w₂, main_eq_success_iff.mpr hbody₂, funext fun path => ?_⟩
  change fileAt path w₂ = fileAt path w₁
  by_cases hpath : options.showHelp = false ∧ options.dumpStatePath ≠ [] ∧
      path = options.dumpStatePath
  · obtain ⟨hhelp, hdump, rfl⟩ := hpath
    obtain ⟨m₁, o₁, hstops₁, hprints₁, hfile₁⟩ := returns_mainBody hparse hhelp hdump hbody
    obtain ⟨m₂, o₂, hstops₂, hprints₂, hfile₂⟩ := returns_mainBody hparse' hhelp hdump hbody₂
    rcases hcase with hshow | ⟨-, m, hstops, haccepted⟩
    · rw [hhelp] at hshow
      cases hshow
    · -- both runs stop in the same machine
      cases hstops.unique hstops₁
      cases (hstops.more_cycles haccepted.complete hn).unique hstops₂
      have hsame : o₁ = o₂ := by
        change _ = _ at hprints₁
        rw [Prints, hprints₁] at hprints₂
        cases hprints₂
        rfl
      rw [hfile₁, hfile₂, hsame]
  · have hother : options.showHelp = false → options.dumpStatePath ≠ [] →
        path ≠ options.dumpStatePath := fun hhelp hdump heq => hpath ⟨hhelp, hdump, heq⟩
    rw [fileAt_of_returns hbody₂ hparse' hother, fileAt_of_returns hbody hparse hother]

end

theorem exportDemo_more_cycles : ∃ w₁ w₂, main emptySystem exportDemo {} = some (.success, w₁) ∧
    main emptySystem (exportDemo ++ ["--max-cycles=".toList ++ "200".toList]) {} =
      some (.success, w₂) ∧ w₂.files = w₁.files := by
  have hbound : (parseCli exportDemo).toOption.any (fun options =>
      decide (options.maxCycles ≤ 200)) = true := by decide +kernel
  obtain ⟨options, hparse, -⟩ := exportDemo_options
  rw [hparse] at hbound
  have hn : options.maxCycles ≤ 200 := of_decide_eq_true hbound
  have htext : Numeral 10 "200".toList 200 :=
    (stoull_eq_ok_iff (by omega)).mp (by decide +kernel)
  obtain ⟨w₁, hmain⟩ := exportDemo_succeeds
  obtain ⟨w₂, hmain₂, hfiles⟩ := more_cycles_succeed hparse htext hn hmain
  exact ⟨w₁, w₂, hmain, hmain₂, hfiles⟩

end RvPipeline
