import RvPipeline.Properties.TraceTiming

/-!
# The states of a run

What holds between any two cycles of any run, also of a program that stores into its own code
and of a run that never ends.

Results:

* `runs_precise`: registers, halt flag and instruction count are those behind some of the
  words taken; memory and its log are at most one word ahead; three words are in flight at
  most.
* `stats_consistent`: what the statistics of one state have to do with each other.
* `Runs.fit`: as long as the clock fits into 64 bits, so do all counters.
-/

namespace RvPipeline

open Isa

section

variable {m₀ m m' : Machine} {t : Trace} {g : Slots}

/-! ## Precise states -/

/-- The CPU behind the words `done`, while the memory access of `ahead` has been performed. -/
structure Precise (m₀ m : Machine) (done ahead : List Fetched) : Prop where
  regs : m.cpu.regs = (replay instrOf (archOf m₀.cpu) done).regs
  halted : m.cpu.halted = (replay instrOf (archOf m₀.cpu) done).halted
  instret : m.cpu.stats.instructionCount = (replay instrOf (archOf m₀.cpu) done).instret
  memory : m.cpu.memory = (replay instrOf (archOf m₀.cpu) (done ++ ahead)).mem
  log : m.cpu.memoryWrites =
    m₀.cpu.memoryWrites ++ observe instrOf writesOf (archOf m₀.cpu) (done ++ ahead)
  faultFree : FaultFree instrOf (archOf m₀.cpu) (done ++ ahead)

/-- **Every state of a run is precise**: the words taken are a prefetched path, and the CPU is
    behind all of them but those in flight. -/
theorem runs_precise (h₀ : Initial m₀) (h : Runs m₀ t m) :
    Prefetched instrOf (archOf m₀.cpu) t.issued ∧ ∃ done ahead flight,
      t.issued = done ++ ahead ++ flight ∧ ahead.length ≤ 1 ∧ ahead.length + flight.length ≤ 3 ∧
        t.retired = done.filter (isInstr instrOf) ∧ Precise m₀ m done ahead := by
  obtain ⟨g, hg⟩ := h.reached h₀
  have hpath := hg.inv.front.path
  rw [← hg.account.issued] at hpath
  refine ⟨hpath, g.done, g.wb.toList, g.mem.toList ++ g.ex.toList, ?_, ?_, ?_, hg.account.retired,
    ?_⟩
  · rw [hg.account.issued, Slots.taken_eq_accessed, Slots.accessed]
  · cases g.wb <;> simp
  · cases g.wb <;> cases g.mem <;> cases g.ex <;> simp
  · have hc := hg.inv.committed
    exact ⟨hc.regs, hc.halted, hc.instret, hc.mem, hg.account.log, hg.account.faultFree⟩

/-! ## How far the words in flight are behind -/

/-- A word is taken in the second cycle at the earliest, and retires three cycles later. -/
structure Lags (g : Slots) (clock : ℕ) : Prop where
  taken : g.taken ≠ [] → g.taken.length + 1 ≤ clock
  executed : g.executed ≠ [] → g.executed.length + 2 ≤ clock
  accessed : g.accessed ≠ [] → g.accessed.length + 3 ≤ clock
  done : g.done ≠ [] → g.done.length + 4 ≤ clock

theorem Lags.next {clock : ℕ} {x : Option Fetched} (h : Lags g clock)
    (hx : x.isSome = true → 0 < clock) : Lags (g.next x) (clock + 1) := by
  obtain ⟨htaken, hexecuted, haccessed, -⟩ := h
  refine ⟨fun hne => ?_, fun hne => Nat.succ_le_succ (htaken hne),
    fun hne => Nat.succ_le_succ (hexecuted hne), fun hne => Nat.succ_le_succ (haccessed hne)⟩
  rw [Slots.taken_next] at hne ⊢
  cases x with
  | none =>
    rw [Option.toList_none, List.append_nil] at hne ⊢
    exact Nat.le_succ_of_le (htaken hne)
  | some x =>
    have hclock := hx rfl
    rw [Option.toList_some, List.length_append, List.length_singleton]
    by_cases hnil : g.taken = []
    · rw [hnil, List.length_nil]
      omega
    · have hle := htaken hnil
      omega

theorem Runs.lags (h₀ : Initial m₀) (h : Runs m₀ t m) :
    ∃ g, Reached m₀ t g m ∧ Lags g m.cpu.stats.clockCycles ∧
      (m.pipeline.ifId.valid = true → 0 < m.cpu.stats.clockCycles) := by
  induction h with
  | start =>
    refine ⟨{}, .start h₀, ⟨?_, ?_, ?_, ?_⟩, fun hv => ?_⟩
    · exact fun hne => absurd rfl hne
    · exact fun hne => absurd rfl hne
    · exact fun hne => absurd rfl hne
    · exact fun hne => absurd rfl hne
    · rw [h₀.pipeline] at hv
      cases hv
  | @cycle t m m' _ hrun hcycle ih =>
    obtain ⟨g, hg, hlags, hfetched⟩ := ih
    refine ⟨_, hg.next hrun hcycle, ?_, fun _ => ?_⟩
    · rw [clockCycles_cycle hcycle]
      refine hlags.next fun hissued => hfetched ?_
      by_contra hv
      rw [issuedIn, takes, Bool.not_eq_true _ |>.mp hv, Bool.and_false] at hissued
      cases hissued
    · rw [clockCycles_cycle hcycle]
      exact Nat.succ_pos _

/-! ## Statistics -/

theorem FetchView.missed_le (type : BranchPredictorType) (v : FetchView)
    (w : List BranchRecord) :
    (v.next type w).missed ≤ v.missed + w.length := by
  unfold FetchView.next
  cases w with
  | nil => exact Nat.le_refl _
  | cons b w =>
    rw [List.length_cons]
    split
    · show v.missed + 1 ≤ _
      omega
    · show v.missed ≤ _
      omega

/-- Only branches are mispredicted. -/
theorem FetchView.missed_along_le {type : BranchPredictorType} (s : Arch) (v : FetchView)
    (path : List Fetched) : (FetchView.along type s v path).missed ≤
      v.missed + (observe instrOf branchesOf s path).length := by
  induction path using List.reverseRecOn with
  | nil => exact Nat.le_refl _
  | append_singleton p x ih =>
    rw [FetchView.along_snoc, observe_snoc, List.length_append]
    have hle := (FetchView.along type s v p).missed_le type
      (observeAt instrOf branchesOf (replay instrOf s p) x)
    omega

/-- Only instructions are branches. -/
theorem length_branches_le (s : Arch) (path : List Fetched) :
    (observe instrOf branchesOf s path).length ≤ path.countP (isInstr instrOf) := by
  induction path using List.reverseRecOn with
  | nil => exact Nat.le_refl _
  | append_singleton p x ih =>
    rw [observe_snoc, List.length_append, List.countP_append, List.countP_singleton, isInstr]
    cases hx : instrOf x.word with
    | none => rw [observeAt_none hx]; exact ih
    | some i =>
      rw [observeAt_some hx, Option.isSome_some, if_pos rfl]
      refine Nat.add_le_add ih ?_
      cases i <;> simp [branchesOf]

/-- The instructions counted are those among the words done. -/
theorem Reached.countP_done (h : Reached m₀ t g m) (hstats : m₀.cpu.stats = {}) :
    m.cpu.stats.instructionCount = g.done.countP (isInstr instrOf) := by
  rw [h.inv.committed.instret, replay_instret, List.countP_eq_length_filter]
  change m₀.cpu.stats.instructionCount + _ = _
  rw [hstats]
  exact Nat.zero_add _

theorem Runs.mispredictions_le (h₀ : Initial m₀) (hstats : m₀.cpu.stats = {}) (h : Runs m₀ t m) :
    m.cpu.stats.branchMispredictions ≤ m.cpu.stats.branchPredictions := by
  obtain ⟨g, hg, hforesight⟩ := h.foresight h₀
  have hpredictions := hg.account.predictions
  have hmissed := hforesight.missed
  rw [hstats] at hpredictions hmissed
  simp only [Nat.zero_add] at hpredictions hmissed
  rw [hpredictions, hmissed]
  exact (FetchView.missed_along_le _ _ _).trans (Nat.le_of_eq (Nat.zero_add _))

/-- A branch is counted two cycles before it retires. -/
theorem Runs.predictions_le (h₀ : Initial m₀) (hstats : m₀.cpu.stats = {}) (h : Runs m₀ t m) :
    m.cpu.stats.branchPredictions ≤ m.cpu.stats.instructionCount + 2 := by
  obtain ⟨g, hg⟩ := h.reached h₀
  have hpredictions := hg.account.predictions
  rw [hstats] at hpredictions
  simp only [Nat.zero_add] at hpredictions
  have hcount := hg.countP_done hstats
  have hbranches := length_branches_le (archOf m₀.cpu) g.executed
  have hflight : g.executed.countP (isInstr instrOf) ≤ g.done.countP (isInstr instrOf) + 2 := by
    rw [Slots.executed, Slots.accessed, List.countP_append, List.countP_append]
    have hwb : g.wb.toList.countP (isInstr instrOf) ≤ 1 :=
      (List.countP_le_length).trans (by cases g.wb <;> simp)
    have hmem : g.mem.toList.countP (isInstr instrOf) ≤ 1 :=
      (List.countP_le_length).trans (by cases g.mem <;> simp)
    omega
  omega

/-- An instruction passes five stages, and one is counted in a cycle. -/
theorem Runs.instructionCount_add_le (h₀ : Initial m₀) (hstats : m₀.cpu.stats = {})
    (h : Runs m₀ t m) (hpos : 0 < m.cpu.stats.instructionCount) :
    m.cpu.stats.instructionCount + 4 ≤ m.cpu.stats.clockCycles := by
  obtain ⟨g, hg, hlags, -⟩ := h.lags h₀
  have hcount : m.cpu.stats.instructionCount ≤ g.done.length :=
    (Nat.le_of_eq (hg.countP_done hstats)).trans List.countP_le_length
  have hdone : g.done ≠ [] := List.length_pos_iff.mp (by omega)
  have hle := hlags.done hdone
  omega

/-- A cycle in which an instruction retires is not one in which the front waits or is flushed. -/
theorem Runs.causes_le (h₀ : Initial m₀) (hstats : m₀.cpu.stats = {}) (h : Runs m₀ t m) :
    m.cpu.stats.instructionCount + m.cpu.stats.stallCycles + m.cpu.stats.branchMispredictions ≤
      m.cpu.stats.clockCycles := by
  obtain ⟨g, hg⟩ := h.reached h₀
  obtain ⟨idle, -, hclock⟩ := hg.account.clock
  have hcount := hg.countP_done hstats
  have hdone : g.done.countP (isInstr instrOf) ≤ g.taken.length := by
    rw [Slots.taken_eq_done, List.length_append]
    exact List.countP_le_length.trans (Nat.le_add_right _ _)
  rw [hstats] at hclock
  simp only [Nat.zero_add, Nat.add_zero] at hclock
  omega

/-- What the statistics of one state have to do with each other: the accuracy of the branch
    prediction is computed from a difference that is not negative, fewer instructions retire
    than cycles pass, and no cycle is counted for two reasons. -/
structure Consistent (stats : ExecutionStats) : Prop where
  accuracy : stats.branchMispredictions ≤ stats.branchPredictions
  predictions : stats.branchPredictions ≤ stats.instructionCount + 2
  latency : 0 < stats.instructionCount → stats.instructionCount + 4 ≤ stats.clockCycles
  causes : stats.instructionCount + stats.stallCycles + stats.branchMispredictions ≤
    stats.clockCycles

/-- **The statistics are consistent** in every state of a run. -/
theorem stats_consistent (h₀ : Initial m₀) (hstats : m₀.cpu.stats = {}) (h : Runs m₀ t m) :
    Consistent m.cpu.stats where
  accuracy := h.mispredictions_le h₀ hstats
  predictions := h.predictions_le h₀ hstats
  latency := h.instructionCount_add_le h₀ hstats
  causes := h.causes_le h₀ hstats

/-- The counters are below `2 ^ 64`, so that those of the source have not wrapped around. -/
structure ExecutionStats.Fit (stats : ExecutionStats) : Prop where
  clockCycles : stats.clockCycles < 2 ^ 64
  instructionCount : stats.instructionCount < 2 ^ 64
  stallCycles : stats.stallCycles < 2 ^ 64
  branchPredictions : stats.branchPredictions < 2 ^ 64
  branchMispredictions : stats.branchMispredictions < 2 ^ 64

/-- It is enough that the clock has not: a branch is counted two cycles early, but an instruction
    four cycles late. -/
theorem Runs.fit (h₀ : Initial m₀) (hstats : m₀.cpu.stats = {}) (h : Runs m₀ t m)
    (hclock : m.cpu.stats.clockCycles < 2 ^ 64) : m.cpu.stats.Fit := by
  have hmisses := h.mispredictions_le h₀ hstats
  have hpredictions := h.predictions_le h₀ hstats
  have hlatency := h.instructionCount_add_le h₀ hstats
  have hcauses := h.causes_le h₀ hstats
  have hbranches : m.cpu.stats.branchPredictions < 2 ^ 64 := by
    rcases Nat.eq_zero_or_pos m.cpu.stats.instructionCount with hzero | hpos
    · omega
    · have hle := hlatency hpos
      omega
  exact ⟨hclock, by omega, by omega, hbranches, by omega⟩

end

/-! ## A program that never ends -/

/-- A branch to itself. -/
def spin : Machine := .ofProgram [0x00000063]

theorem exists_runs (m₀ : Machine) (k : ℕ) (p : Machine → Bool)
    (h : (drive k ({}, m₀)).any (fun x => p x.2) = true) :
    ∃ t m, Runs m₀ t m ∧ p m = true := by
  rw [Option.any_eq_true] at h
  obtain ⟨x, hx, hp⟩ := h
  exact ⟨x.1, x.2, runs_of_drive .start hx, hp⟩

theorem spin_precise : ∃ t m done ahead, Runs spin t m ∧ m.cpu.stats.instructionCount = 5 ∧
    Precise spin m done ahead := by
  obtain ⟨t, m, hm, hp⟩ := exists_runs spin 10 (fun m => m.cpu.stats.instructionCount == 5)
    (by decide +kernel)
  have hinit : Initial spin := ⟨rfl, rfl⟩
  obtain ⟨-, done, ahead, flight, -, -, -, -, hprecise⟩ := runs_precise hinit hm
  exact ⟨t, m, done, ahead, hm, beq_iff_eq.mp hp, hprecise⟩

theorem spin_consistent : ∃ t m, Runs spin t m ∧ m.cpu.stats.branchPredictions = 7 ∧
    Consistent m.cpu.stats := by
  obtain ⟨t, m, hm, hp⟩ := exists_runs spin 10 (fun m => m.cpu.stats.branchPredictions == 7)
    (by decide +kernel)
  have hinit : Initial spin := ⟨rfl, rfl⟩
  exact ⟨t, m, hm, beq_iff_eq.mp hp, stats_consistent hinit rfl hm⟩

end RvPipeline
