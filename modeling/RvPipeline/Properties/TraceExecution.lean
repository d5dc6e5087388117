import RvPipeline.Properties.TraceText
import RvPipeline.Properties.TraceTiming
import RvPipeline.Properties.TraceWindow

/-!
# What a trace says about the program

A trace of every cycle shows every instruction that the program executes: it is in `MEM/WB`
for exactly one cycle, and nothing else ever is.

Results:

* `runs_cycleStates`: from any cycle on, the rounds of the loop retire what the run retires.
* `trace_shows_execution`: the text of the trace of a run that halts, and what can be read off
  it: the cycles, and the instructions that have been executed.
-/

namespace RvPipeline

open Isa State

/-- The instructions in the `MEM/WB` lines, from top to bottom. -/
def shownRetired (cycles : List ShownCycle) : List Fetched :=
  cycles.flatMap fun v => (v.memWb.map fun l => ⟨l.pc, l.instruction⟩).toList

/-- Every cycle is traced. -/
structure TracesAll (options : MainOptions) : Prop where
  trace : options.trace = true
  start : options.traceStart = 0
  unlimited : options.hasTraceLimit = false

/-! ## The rounds of the loop -/

section

variable {m₀ m m' : Machine} {t : Trace}

theorem retired_shownCycle (m : Machine) :
    ((shownCycle (m.cpu, m.pipeline)).memWb.map fun l => (⟨l.pc, l.instruction⟩ : Fetched)) =
      retiredIn m := by
  have hlatch : (shownCycle (m.cpu, m.pipeline)).memWb = shownLatch m.pipeline.memWb.valid
      m.pipeline.memWb.pc m.pipeline.memWb.instruction := rfl
  rw [hlatch, shownLatch, retiredIn]
  cases m.pipeline.memWb.valid with
  | false => rfl
  | true => rfl

/-- Nothing is run when the condition fails. -/
theorem cycleStates_of_stops {options : CliOptions} (h : keepsRunning options m.cpu = false)
    (fuel : ℕ) : cycleStates options fuel m = [] := by
  cases fuel with
  | zero => rfl
  | succ fuel => rw [cycleStates, h, if_neg Bool.false_ne_true]

/-- **The rounds of the loop** from any cycle on: what is retired in them, and how many they
    are. -/
theorem runs_cycleStates {options : CliOptions} {k j : ℕ} (hm : Runs m₀ t m)
    (hrun : runLoop options k m = .ok () m') (hexit : keepsRunning options m'.cpu = false)
    (hj : k ≤ j) :
    (∃ t', Runs m₀ t' m' ∧ t'.retired =
      t.retired ++ (cycleStates options j m).flatMap fun m => (retiredIn m).toList) ∧
    m'.cpu.stats.clockCycles = m.cpu.stats.clockCycles + (cycleStates options j m).length := by
  induction k generalizing t m j with
  | zero =>
    cases hrun
    rw [cycleStates_of_stops hexit]
    exact ⟨⟨t, hm, (List.append_nil _).symm⟩, rfl⟩
  | succ k ih =>
    rw [runLoop_succ] at hrun
    cases hk : keepsRunning options m.cpu with
    | false =>
      rw [hk] at hrun
      cases hrun
      rw [cycleStates_of_stops hexit]
      exact ⟨⟨t, hm, (List.append_nil _).symm⟩, rfl⟩
    | true =>
      obtain ⟨j, rfl⟩ := Nat.exists_eq_add_of_le' (Nat.le_trans (Nat.le_add_left 1 k) hj)
      rw [hk, if_pos rfl] at hrun
      rw [cycleStates, hk, if_pos rfl]
      cases hc : runPipelineCycle m with
      | ok a m₁ =>
        rw [hc] at hrun
        obtain ⟨⟨t', ht', hretired⟩, hclock⟩ :=
          ih (hm.cycle (not_halted_of_keepsRunning hk) hc) hrun (Nat.le_of_succ_le_succ hj)
        refine ⟨⟨t', ht', ?_⟩, ?_⟩
        · rw [hretired, List.flatMap_cons, List.append_assoc]
        · rw [hclock, clockCycles_cycle hc, List.length_cons]
          omega
      | error e m₁ =>
        rw [hc] at hrun
        cases hrun

/-- The cycles of the rounds. -/
theorem clock_cycleStates {options : CliOptions} (fuel : ℕ)
    (hclock : m.cpu.stats.clockCycles = 0) :
    (cycleStates options fuel m).map (fun m => m.cpu.stats.clockCycles) =
      List.range (cycleStates options fuel m).length := by
  apply List.ext_getElem
  · simp
  · intro k hk _
    rw [List.length_map] at hk
    obtain ⟨hcycle, -⟩ := cycleStates_spec .start (List.getElem?_eq_getElem hk)
    rw [List.getElem_map, List.getElem_range, hcycle, hclock, Nat.zero_add]

end

/-! ## What is printed -/

section

variable {options : MainOptions} {m : Machine}

/-- The states in order, on any world. -/
theorem forM_printTrace_returns {states : List Machine} {w : World} {o : OStream}
    (h : Prints (printTraces (states.map fun m => (m.cpu, m.pipeline))) w.cout o) :
    Returns (states.forM printTrace) w () { w with cout := o } := by
  induction states generalizing w with
  | nil =>
    cases h
    rfl
  | cons m states ih =>
    obtain ⟨u, o₁, hfirst, hrest⟩ := returns_bind_iff.mp h
    have hround : Returns (printTrace m) w () { w with cout := o₁ } :=
      returns_onCout_iff.mpr ⟨o₁, hfirst, rfl⟩
    exact returns_bind_iff.mpr ⟨(), _, hround, ih hrest⟩

/-- Without the trace, the loop prints nothing. -/
theorem simulate_quiet_keeps (fuel : ℕ) (m : Machine) :
    Keeps (fun w : World => w) (simulate { options with trace := false } fuel 0 m) := by
  induction fuel generalizing m with
  | zero =>
    intro w r w' h
    cases h
  | succ fuel ih =>
    rw [simulate_quiet_succ]
    split
    · refine Keeps.bind ?_ ih
      unfold cycle
      split
      · exact keeps_pure _
      · exact keeps_throw _
    · exact keeps_pure _

theorem TracesAll.windowFrom (h : TracesAll options) (states : List Machine) :
    windowFrom options 0 0 states = states := by
  rw [RvPipeline.windowFrom, h.trace, if_pos rfl, h.start, h.unlimited]
  rfl

/-- What the `MEM/WB` lines of some states show is what is retired in them. -/
theorem shownRetired_map (states : List Machine) :
    shownRetired ((states.map fun m => (m.cpu, m.pipeline)).map shownCycle) =
      states.flatMap fun m => (retiredIn m).toList := by
  rw [shownRetired, List.map_map, List.flatMap_map]
  refine congrArg (List.flatMap · states) (funext fun m => ?_)
  rw [Function.comp_apply, retired_shownCycle]

variable {m₀ : Machine} {t : Trace} {w : World} {before : List Char} {left : Bool}

/-- **The trace shows the execution**: for a run that halts in time, the loop writes the text
    of some cycles which can be read back; they are all cycles of the run, and the
    instructions in their `MEM/WB` lines are those of the path executed, which is the one
    of the sequential run if no store writes to one of the next two words. -/
theorem trace_shows_execution (h₀ : Initial m₀) (hstats : m₀.cpu.stats = {})
    (hall : TracesAll options) (h : HaltsIn m₀ t m) (htime : InTime options.toCliOptions m.cpu)
    (hcout : w.cout = { text := before, left := left }) :
    ∃ cycles w', Returns (simulate options (options.maxCycles + 1) 0 m₀) w m w' ∧
      w'.cout.text = before ++ cycles.flatMap cycleText ∧
      (∀ other, other.flatMap cycleText = cycles.flatMap cycleText → other = cycles) ∧
      cycles.map ShownCycle.clock = List.range m.cpu.stats.clockCycles ∧
      shownRetired cycles = t.issued.filter (isInstr instrOf) ∧
      (StoresSpareNextTwo instrOf (archOf m₀.cpu) →
        ∃ n, (seqRun instrOf (archOf m₀.cpu) n).halted = true ∧
          (∀ k < n, (seqRun instrOf (archOf m₀.cpu) k).halted = false) ∧
          shownRetired cycles = (seqWords (archOf m₀.cpu) n).filter (isInstr instrOf)) := by
  have hclock₀ : m₀.cpu.stats.clockCycles = 0 := by rw [hstats]
  have hfin := h.finished h₀
  obtain ⟨hrun, -⟩ := (runLoop_halts_iff h₀ hstats).mpr ⟨⟨t, h⟩, htime⟩
  obtain ⟨-, hexit⟩ := runLoop_exit hrun .start
  obtain ⟨⟨t', ht', hretired⟩, hclock⟩ := runs_cycleStates .start hrun hexit (Nat.le_succ _)
  obtain ⟨rfl, -⟩ := HaltsIn.unique ⟨ht', h.2⟩ h
  -- the states that are printed, and what they show
  generalize hstates : cycleStates options.toCliOptions (options.maxCycles + 1) m₀ = states
    at hretired hclock
  have hclocks := @clock_cycleStates m₀ options.toCliOptions (options.maxCycles + 1) hclock₀
  rw [hstates] at hclocks
  rw [List.nil_append, ← shownRetired_map, hfin.retired] at hretired
  obtain ⟨w', hreturns⟩ := (simulate_yields options.maxCycles 0 (by omega) w).mpr hrun
  refine ⟨_, w', hreturns, ?_, fun other hother => ?_, ?_, hretired.symm, fun hclean => ?_⟩
  · rw [simulate_eq_windowFrom, hclock₀, hall.windowFrom, hstates] at hreturns
    obtain ⟨u, w₁, hprint, hquiet⟩ := returns_bind_iff.mp hreturns
    have htext := printTraces_text (states.map fun m => (m.cpu, m.pipeline)) before left
    rw [← hcout] at htext
    obtain ⟨-, hw₁⟩ := (forM_printTrace_returns htext).unique hprint
    have hw' : w' = w₁ := (simulate_quiet_keeps _ _).returns hquiet
    rw [hw', ← hw₁]
  · refine readable_cycleText.flatMap_injective (fun v => ?_) hother
    exact List.append_ne_nil_of_left_ne_nil (by decide) _
  · rw [hclock, hclock₀, Nat.zero_add, ← hclocks, List.map_map, List.map_map]
    rfl
  · obtain ⟨n, hn, hbefore, hissued⟩ := hfin.exists_seqWords hclean
    exact ⟨n, hn, hbefore, by rw [← hretired, hissued]⟩

end

theorem addAndHalt_trace : ∃ cycles m w',
    Returns (simulate { trace := true } 101 0 addAndHalt) {} m w' ∧
      w'.cout.text = cycles.flatMap cycleText ∧
      shownRetired cycles = [⟨0, 0x00500093⟩, ⟨4, 0x00000073⟩] := by
  obtain ⟨t, m, hm, hp⟩ := exists_haltsIn addAndHalt 6 (fun x =>
    decide (x.2.cpu.stats.clockCycles ≤ 100) &&
      decide (x.1.issued.filter (isInstr instrOf) = [⟨0, 0x00500093⟩, ⟨4, 0x00000073⟩]))
    (by decide +kernel)
  rw [Bool.and_eq_true, decide_eq_true_eq, decide_eq_true_eq] at hp
  have hinit : Initial addAndHalt := ⟨rfl, rfl⟩
  have hall : TracesAll { trace := true } := ⟨rfl, rfl, rfl⟩
  have htime : InTime {} m.cpu := ⟨hp.1, Bool.false_ne_true.elim⟩
  obtain ⟨cycles, w', hreturns, htext, -, -, hretired, -⟩ :=
    trace_shows_execution (w := {}) hinit rfl hall hm htime rfl
  exact ⟨cycles, m, w', hreturns, htext, hretired.trans hp.2⟩

end RvPipeline
