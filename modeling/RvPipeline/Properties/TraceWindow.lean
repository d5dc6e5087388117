import RvPipeline.Properties.ExitStatus

/-!
# The trace window

With `--trace`, the loop of the simulator prints the pipeline in front of some of its cycles.
Which ones is decided round by round, with a counter of the lines printed.

Results:

* `simulate_eq_windowFrom`: what is printed from any round on.
* `simulate_eq_window`: the loop prints the states of the cycles from `--trace-start` on,
  `--trace-limit` of them at most, and is the loop without the trace otherwise.
-/

namespace RvPipeline

open Isa State

/-- The states in which the loop runs a cycle. -/
def cycleStates (options : CliOptions) : (fuel : ℕ) → Machine → List Machine
  | 0, _ => []
  | fuel + 1, m =>
    if keepsRunning options m.cpu then
      match runPipelineCycle m with
      | .ok _ m' => m :: cycleStates options fuel m'
      | .error _ _ => [m]
    else []

/-- What is left of the window in front of cycle `clock`, with `printed` lines printed. -/
def windowFrom (options : MainOptions) (clock printed : ℕ) (states : List Machine) :
    List Machine :=
  if options.trace then
    let states := states.drop (options.traceStart - clock)
    if options.hasTraceLimit then states.take (options.traceLimit - printed) else states
  else []

/-- The states that are printed. -/
def window (options : MainOptions) (states : List Machine) : List Machine :=
  windowFrom options 0 0 states

/-- Print the pipeline. -/
def printTrace (m : Machine) : MainM Unit := onCout (printPipelineTrace m.cpu m.pipeline)

section

variable {options : MainOptions} {m m' : Machine}

theorem windowFrom_nil (clock printed : ℕ) : windowFrom options clock printed [] = [] := by
  simp [windowFrom]

/-- **One round** of the window. -/
theorem windowFrom_cons (clock printed : ℕ) (states : List Machine) :
    windowFrom options clock printed (m :: states) =
      if shouldPrintTrace options clock printed then
        m :: windowFrom options (clock + 1) (printed + 1) states
      else windowFrom options (clock + 1) printed states := by
  unfold windowFrom shouldPrintTrace
  cases options.trace with
  | false => rfl
  | true =>
    rcases Nat.lt_or_ge clock options.traceStart with hlt | hge
    · -- in front of the window
      have hdrop : options.traceStart - clock = options.traceStart - (clock + 1) + 1 := by omega
      simp [hlt, hdrop]
    · have hdrop : options.traceStart - clock = 0 := by omega
      have hdrop' : options.traceStart - (clock + 1) = 0 := by omega
      have hstarted : ¬ clock < options.traceStart := by omega
      simp only [hdrop, hdrop', List.drop_zero, hstarted]
      cases options.hasTraceLimit with
      | false => rfl
      | true =>
        rcases Nat.lt_or_ge printed options.traceLimit with hmore | hdone
        · have htake : options.traceLimit - printed = options.traceLimit - (printed + 1) + 1 := by
            omega
          simp [hmore, htake]
        · have htake : options.traceLimit - printed = 0 := by omega
          have hfull : ¬ printed < options.traceLimit := by omega
          simp [hfull, htake]

theorem traceRound_eq (printed : ℕ) (m : Machine) : traceRound options printed m =
    if shouldPrintTrace options m.cpu.stats.clockCycles printed then
      printTrace m >>= fun _ => pure (printed + 1)
    else pure printed := rfl

/-- Without the trace, the counter does not matter. -/
theorem simulate_quiet_succ (fuel : ℕ) (m : Machine) :
    simulate { options with trace := false } (fuel + 1) 0 m =
      if keepsRunning options.toCliOptions m.cpu then
        cycle m >>= simulate { options with trace := false } fuel 0
      else pure m := by
  rw [simulate]
  rfl

/-- From any cycle on, and with any number of lines printed. -/
theorem simulate_eq_windowFrom (fuel printed : ℕ) (m : Machine) :
    simulate options fuel printed m = ((windowFrom options m.cpu.stats.clockCycles printed
        (cycleStates options.toCliOptions fuel m)).forM printTrace >>= fun _ =>
      simulate { options with trace := false } fuel 0 m) := by
  induction fuel generalizing printed m with
  | zero =>
    rw [cycleStates, windowFrom_nil]
    rfl
  | succ fuel ih =>
    rw [simulate_quiet_succ, simulate, cycleStates]
    cases hk : keepsRunning options.toCliOptions m.cpu with
    | false =>
      rw [if_neg Bool.false_ne_true, if_neg Bool.false_ne_true, if_neg Bool.false_ne_true,
        windowFrom_nil]
      rfl
    | true =>
      rw [if_pos rfl, if_pos rfl, if_pos rfl, traceRound_eq]
      cases hc : runPipelineCycle m with
      | ok a m₁ =>
        have hclock := clockCycles_cycle hc
        simp only [cycle_ok hc, pure_bind, windowFrom_cons]
        cases shouldPrintTrace options m.cpu.stats.clockCycles printed with
        | true => simp [ih, hclock]
        | false => simp [ih, hclock]
      | error e m₁ =>
        simp only [cycle_error hc, windowFrom_cons, windowFrom_nil]
        cases shouldPrintTrace options m.cpu.stats.clockCycles printed with
        | true => simp
        | false => simp

/-- The rounds of the loop are consecutive cycles of the run. -/
theorem cycleStates_spec {options : CliOptions} {m₀ : Machine} {t : Trace} {fuel k : ℕ}
    (hm : Runs m₀ t m) (hk : (cycleStates options fuel m)[k]? = some m') :
    m'.cpu.stats.clockCycles = m.cpu.stats.clockCycles + k ∧ ∃ t', Runs m₀ t' m' := by
  induction fuel generalizing m t k with
  | zero =>
    rw [cycleStates, List.getElem?_nil] at hk
    cases hk
  | succ fuel ih =>
    rw [cycleStates] at hk
    cases hr : keepsRunning options m.cpu with
    | false =>
      rw [hr, if_neg Bool.false_ne_true, List.getElem?_nil] at hk
      cases hk
    | true =>
      rw [hr, if_pos rfl] at hk
      cases k with
      | zero =>
        have hfirst : m = m' := by
          cases hc : runPipelineCycle m with
          | ok a m₁ => rw [hc] at hk; exact Option.some.inj hk
          | error e m₁ => rw [hc] at hk; exact Option.some.inj hk
        subst hfirst
        exact ⟨rfl, t, hm⟩
      | succ k =>
        cases hc : runPipelineCycle m with
        | ok a m₁ =>
          rw [hc, List.getElem?_cons_succ] at hk
          obtain ⟨hclock, hruns⟩ := ih (hm.cycle (not_halted_of_keepsRunning hr) hc) hk
          refine ⟨?_, hruns⟩
          rw [hclock, clockCycles_cycle hc]
          omega
        | error e m₁ =>
          rw [hc, List.getElem?_cons_succ, List.getElem?_nil] at hk
          cases hk

/-- **The trace is a window on the run**: started in cycle 0, the loop prints the states of
    the cycles from `--trace-start` on, `--trace-limit` of them at most, and it does
    otherwise what it does without the trace; the `k`-th round is cycle `k` of the run. -/
theorem simulate_eq_window (fuel : ℕ) (hclock : m.cpu.stats.clockCycles = 0) :
    simulate options fuel 0 m =
        ((window options (cycleStates options.toCliOptions fuel m)).forM printTrace >>= fun _ =>
          simulate { options with trace := false } fuel 0 m) ∧
      ∀ k m', (cycleStates options.toCliOptions fuel m)[k]? = some m' →
        m'.cpu.stats.clockCycles = k ∧ ∃ t, Runs m t m' := by
  refine ⟨?_, fun k m' hk => ?_⟩
  · rw [simulate_eq_windowFrom, hclock]
    rfl
  · obtain ⟨hcycle, hruns⟩ := cycleStates_spec .start hk
    refine ⟨?_, hruns⟩
    rw [hcycle, hclock, Nat.zero_add]

end

/-- Options that print the third and the fourth cycle. -/
def thirdAndFourth : MainOptions :=
  { trace := true, traceStart := 2, traceLimit := 2, hasTraceLimit := true }

/-- Two instructions. -/
def addAndHalt : Machine := .ofProgram [0x00500093, 0x00000073]

theorem addAndHalt_window : ∃ m₂ m₃, m₂.cpu.stats.clockCycles = 2 ∧
    m₃.cpu.stats.clockCycles = 3 ∧ simulate thirdAndFourth 101 0 addAndHalt =
      (printTrace m₂ >>= fun _ => printTrace m₃ >>= fun _ =>
        simulate { thirdAndFourth with trace := false } 101 0 addAndHalt) := by
  have hlength : 4 ≤ (cycleStates thirdAndFourth.toCliOptions 101 addAndHalt).length := by
    decide +kernel
  obtain ⟨hwindow, hstates⟩ := @simulate_eq_window thirdAndFourth addAndHalt 101 rfl
  generalize cycleStates thirdAndFourth.toCliOptions 101 addAndHalt = states at hlength hwindow hstates
  rcases states with _ | ⟨m₀, _ | ⟨m₁, _ | ⟨m₂, _ | ⟨m₃, states⟩⟩⟩⟩
  · cases hlength
  · simp at hlength
  · simp at hlength
  · simp at hlength
  · refine ⟨m₂, m₃, (hstates 2 m₂ rfl).1, (hstates 3 m₃ rfl).1, ?_⟩
    rw [hwindow]
    simp [window, windowFrom, thirdAndFourth]

end RvPipeline
