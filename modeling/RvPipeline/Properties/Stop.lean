import RvPipeline.Model.Main
import RvPipeline.Pipeline.Progress

/-!
# Stopping at an instruction count

`main` can stop the simulation after a number of retired instructions. Registers
are written when an instruction retires, but memory one stage earlier, so a
store right behind the last instruction has already been performed.

Results:

* `runLoop_exit`: the loop returns when its condition fails, after a run.
* `stop_at_retireCount`: the state in which it then leaves the machine.
* `stop_storeBehind`: a program for which that is no state of the sequential run.
-/

namespace RvPipeline

open Isa

section

variable {options : CliOptions} {m₀ m m' : Machine} {t : Trace}

/-! ## The loop -/

theorem not_halted_of_keepsRunning (h : keepsRunning options m.cpu = true) :
    m.cpu.halted = false := by
  simp only [keepsRunning, Bool.and_eq_true, Bool.not_eq_true'] at h
  exact h.1.1

theorem runLoop_succ (fuel : ℕ) : runLoop options (fuel + 1) m =
    if keepsRunning options m.cpu then
      match runPipelineCycle m with
      | .ok _ m' => runLoop options fuel m'
      | .error e m' => .error e m'
    else .ok () m := by
  simp only [runLoop, bind, EStateM.bind, get, getThe, MonadStateOf.get, get_run]
  split
  · unfold EStateM.bind
    cases runPipelineCycle m <;> rfl
  · rfl

/-- The loop is a run; it ends when its condition fails or the fuel is used up. -/
theorem runs_of_runLoop {fuel : ℕ} (h : runLoop options fuel m = .ok () m') (hm : Runs m₀ t m) :
    (∃ t', Runs m₀ t' m') ∧ (keepsRunning options m'.cpu = false ∨
      m.cpu.stats.clockCycles + fuel ≤ m'.cpu.stats.clockCycles) := by
  induction fuel generalizing t m with
  | zero =>
    cases h
    exact ⟨⟨t, hm⟩, Or.inr (Nat.le_refl _)⟩
  | succ fuel ih =>
    rw [runLoop_succ] at h
    cases hk : keepsRunning options m.cpu with
    | false =>
      rw [hk] at h
      cases h
      exact ⟨⟨t, hm⟩, Or.inl hk⟩
    | true =>
      rw [hk, if_pos rfl] at h
      cases hc : runPipelineCycle m with
      | ok a m₁ =>
        rw [hc] at h
        obtain ⟨hruns, hexit⟩ := ih h (hm.cycle (not_halted_of_keepsRunning hk) hc)
        refine ⟨hruns, hexit.imp_right fun hle => ?_⟩
        rw [clockCycles_cycle hc] at hle
        omega
      | error e m₁ =>
        rw [hc] at h
        cases h

/-- **The loop ends** when its condition fails. -/
theorem runLoop_exit (h : runLoop options options.maxCycles m = .ok () m') (hm : Runs m₀ t m) :
    (∃ t', Runs m₀ t' m') ∧ keepsRunning options m'.cpu = false := by
  obtain ⟨hruns, hexit⟩ := runs_of_runLoop h hm
  refine ⟨hruns, hexit.elim id fun hle => ?_⟩
  have hmax : ¬ m'.cpu.stats.clockCycles < options.maxCycles := by omega
  rw [keepsRunning, decide_eq_false hmax, Bool.and_false]

/-- The loop never runs past the instruction count to stop at. -/
theorem runLoop_instructionCount_le {fuel : ℕ} (hret : options.hasRetireCount = true)
    (h : runLoop options fuel m = .ok () m')
    (hm : m.cpu.stats.instructionCount ≤ options.retireCount) :
    m'.cpu.stats.instructionCount ≤ options.retireCount := by
  induction fuel generalizing m with
  | zero =>
    cases h
    exact hm
  | succ fuel ih =>
    rw [runLoop_succ] at h
    cases hk : keepsRunning options m.cpu with
    | false =>
      rw [hk] at h
      cases h
      exact hm
    | true =>
      rw [hk, if_pos rfl] at h
      cases hc : runPipelineCycle m with
      | ok a m₁ =>
        rw [hc] at h
        refine ih h ?_
        have hlt : m.cpu.stats.instructionCount < options.retireCount := by
          simp only [keepsRunning, hret, Bool.not_true, Bool.false_or, Bool.and_eq_true,
            decide_eq_true_eq] at hk
          exact hk.1.2
        have hcount := instructionCount_cycle m
        rw [hc] at hcount
        have hone := Bool.toNat_le m.pipeline.memWb.valid
        change m₁.cpu.stats.instructionCount = _ at hcount
        omega
      | error e m₁ =>
        rw [hc] at h
        cases h

end

/-! ## The state at the end -/

/-- A store has been performed but not retired. -/
def StoreBehind (m : Machine) : Prop :=
  m.pipeline.memWb.valid = true ∧ m.pipeline.memWb.control.memWrite = true

instance (m : Machine) : Decidable (StoreBehind m) := inferInstanceAs (Decidable (_ ∧ _))

section

variable {m₀ m : Machine} {t : Trace} {g : Slots}

/-- What has retired is a part of the sequential run. -/
theorem Isa.SeqPath.of_append {dec : Word → Option Instr} {s : Arch} {p q : List Fetched}
    (h : SeqPath dec s (p ++ q)) : replay dec s p = seqRun dec s p.length := by
  cases q with
  | nil =>
    rw [List.append_nil] at h
    exact h.state
  | cons u r => exact (h.words p u r rfl).2.2.1

/-- **Between two cycles** registers and instruction count are those of the
    sequential run after the retired instructions, and so is memory unless a store
    is right behind them; then it is one instruction ahead. -/
theorem Reached.committed (h : Reached m₀ t g m)
    (hclean : StoresSpareNextTwo instrOf (archOf m₀.cpu)) :
    m.cpu.stats.instructionCount = (seqRun instrOf (archOf m₀.cpu) g.done.length).instret ∧
    m.cpu.regs = (seqRun instrOf (archOf m₀.cpu) g.done.length).regs ∧
    (¬ StoreBehind m → m.cpu.memory = (seqRun instrOf (archOf m₀.cpu) g.done.length).mem) ∧
    (StoreBehind m →
      (instrOf (seqRun instrOf (archOf m₀.cpu) g.done.length).fetch).any Instr.isStore = true ∧
      (seqRun instrOf (archOf m₀.cpu) (g.done.length + 1)).instret =
        (seqRun instrOf (archOf m₀.cpu) g.done.length).instret + 1 ∧
      m.cpu.memory = (seqRun instrOf (archOf m₀.cpu) (g.done.length + 1)).mem) := by
  obtain ⟨-, hc, hl, -⟩ := h.inv
  have hseq := h.seqPath hclean
  have hdone : replay instrOf (archOf m₀.cpu) g.done = seqRun instrOf (archOf m₀.cpu) g.done.length :=
    hseq.of_append
  rw [← hdone]
  refine ⟨hc.instret, hc.regs, fun hno => ?_, fun hst => ?_⟩
  · rw [hc.mem, Slots.accessed]
    rcases hl.memWb.dest with ⟨hx, -⟩ | ⟨x, hx, hn, -⟩ | ⟨x, i, hx, hi, hv, hs⟩
    · rw [hx, replay_toList_none]
    · rw [hx, Option.toList_some, replay_skipped hn]
    · have hsilent : i.isStore = false := by
        rw [← control_memWrite, ← hs.control, ← Bool.not_eq_true]
        exact fun hw => hno ⟨hv, hw⟩
      rw [hx, Option.toList_some, replay_instr hi, Arch.exec_mem,
        Arch.memAfter_of_not_store hsilent]
  · rcases hl.memWb.dest with ⟨-, hv⟩ | ⟨x, -, -, hv⟩ | ⟨x, i, hx, hi, hv, hs⟩
    · rw [hst.1] at hv; cases hv
    · rw [hst.1] at hv; cases hv
    · have haccessed : g.accessed = g.done ++ [x] := by rw [Slots.accessed, hx, Option.toList_some]
      have hstate := hseq.state
      rw [haccessed, List.length_append, List.length_singleton] at hstate
      have hword : x.word = (replay instrOf (archOf m₀.cpu) g.done).fetch := by
        rw [haccessed] at hseq
        rw [hdone]
        exact (hseq.words g.done x [] rfl).2.2.2
      refine ⟨?_, ?_, ?_⟩
      · rw [← hword, hi, Option.any_some, ← control_memWrite, ← hs.control]
        exact hst.2
      · rw [← hstate, replay_instr hi, Arch.exec_instret]
      · rw [hc.mem, haccessed, hstate]

/-- **Stopping at an instruction count** leaves exactly that count, the registers of
    the sequential run after so many instructions, and its memory, unless the next
    instruction is a store right behind: then that store has been performed. -/
theorem stop_at_retireCount {options : CliOptions} (h₀ : Initial m₀)
    (hstats : m₀.cpu.stats = {}) (hclean : StoresSpareNextTwo instrOf (archOf m₀.cpu))
    (hret : options.hasRetireCount = true)
    (hrun : runLoop options options.maxCycles m₀ = .ok () m)
    (hreached : reachedTarget options m.cpu = true) :
    m.cpu.stats.instructionCount = options.retireCount ∧
    (∃ n, (seqRun instrOf (archOf m₀.cpu) n).instret = options.retireCount) ∧
    (∀ n, (seqRun instrOf (archOf m₀.cpu) n).instret = options.retireCount →
      m.cpu.regs = (seqRun instrOf (archOf m₀.cpu) n).regs ∧
      (¬ StoreBehind m → m.cpu.memory = (seqRun instrOf (archOf m₀.cpu) n).mem)) ∧
    (StoreBehind m → ∃ n, (seqRun instrOf (archOf m₀.cpu) n).instret = options.retireCount ∧
      (instrOf (seqRun instrOf (archOf m₀.cpu) n).fetch).any Instr.isStore = true ∧
      (seqRun instrOf (archOf m₀.cpu) (n + 1)).instret = options.retireCount + 1 ∧
      m.cpu.memory = (seqRun instrOf (archOf m₀.cpu) (n + 1)).mem) := by
  have hle := runLoop_instructionCount_le hret hrun (by rw [hstats]; exact Nat.zero_le _)
  have hcount : m.cpu.stats.instructionCount = options.retireCount := by
    rw [reachedTarget, hret, Bool.true_and, decide_eq_true_eq] at hreached
    omega
  obtain ⟨⟨t, hruns⟩, -⟩ := runLoop_exit hrun (.start : Runs m₀ {} m₀)
  obtain ⟨g, hg⟩ := hruns.reached h₀
  obtain ⟨hinstret, hregs, hmem, hbehind⟩ := hg.committed hclean
  rw [hcount] at hinstret
  refine ⟨hcount, ⟨_, hinstret.symm⟩, fun n hn => ?_, fun hst => ?_⟩
  · obtain ⟨hregs', hmem'⟩ := seqRun_eq_of_instret (hinstret.symm.trans hn.symm)
    exact ⟨hregs.trans hregs', fun hno => (hmem hno).trans hmem'⟩
  · obtain ⟨hstore, hnext, hmem'⟩ := hbehind hst
    rw [← hinstret] at hnext
    exact ⟨_, hinstret.symm, hstore, hnext, hmem'⟩

end

/-- An instruction, and a store right behind it. -/
def storeNext : Machine := .ofProgram [0x00100093, 0x00102823, 0x00000073, 0x00000000, 0x00000000]

theorem storeNext_spares : StoresSpareNextTwo instrOf (archOf storeNext.cpu) :=
  storesSpareNextTwo_of_seqEnds (k := 3) (Or.inl (by decide +kernel)) (by decide +kernel)

/-- Options that stop `main` after `n` instructions. -/
def retireOptions (n : ℕ) : CliOptions := { retireCount := n, hasRetireCount := true }

theorem exists_runLoop (options : CliOptions) (m₀ : Machine) (p : Machine → Bool)
    (h : (match runLoop options options.maxCycles m₀ with
      | .ok _ m => p m
      | .error _ _ => false) = true) :
    ∃ m, runLoop options options.maxCycles m₀ = .ok () m ∧ p m = true := by
  cases hr : runLoop options options.maxCycles m₀ with
  | ok a m => rw [hr] at h; exact ⟨m, rfl, h⟩
  | error e m => rw [hr] at h; cases h

theorem storeNext_stops : ∃ m, runLoop (retireOptions 2) 100 storeNext = .ok () m ∧
    m.cpu.stats.instructionCount = 2 ∧
    m.cpu.memory = (seqRun instrOf (archOf storeNext.cpu) 2).mem := by
  obtain ⟨m, hm, hx⟩ := exists_runLoop (retireOptions 2) storeNext
    (fun m => reachedTarget (retireOptions 2) m.cpu && !decide (StoreBehind m)) (by decide +kernel)
  rw [Bool.and_eq_true, Bool.not_eq_true', decide_eq_false_iff_not] at hx
  have hinit : Initial storeNext := ⟨rfl, rfl⟩
  have hret : (retireOptions 2).hasRetireCount = true := rfl
  obtain ⟨hcount, -, hstate, -⟩ :=
    stop_at_retireCount hinit rfl storeNext_spares hret hm hx.1
  exact ⟨m, hm, hcount, (hstate 2 (by decide +kernel)).2 hx.2⟩

/-- **Stopped after one instruction**, the store of the second is in memory. -/
theorem stop_storeBehind : Initial storeNext ∧ storeNext.cpu.stats = {} ∧
    StoresSpareNextTwo instrOf (archOf storeNext.cpu) ∧
    (seqRun instrOf (archOf storeNext.cpu) 1).instret = 1 ∧
    ∃ m, runLoop (retireOptions 1) 100 storeNext = .ok () m ∧
      m.cpu.stats.instructionCount = 1 ∧
      m.cpu.memory.byte 16 ≠ (seqRun instrOf (archOf storeNext.cpu) 1).mem.byte 16 := by
  obtain ⟨m, hm, hx⟩ := exists_runLoop (retireOptions 1) storeNext
    (fun m => m.cpu.stats.instructionCount == 1 &&
      m.cpu.memory.byte 16 != (seqRun instrOf (archOf storeNext.cpu) 1).mem.byte 16)
    (by decide +kernel)
  rw [Bool.and_eq_true, beq_iff_eq, bne_iff_ne] at hx
  exact ⟨⟨rfl, rfl⟩, rfl, storeNext_spares, by decide +kernel, m, hm, hx⟩

end RvPipeline
