import RvPipeline.Properties.TraceTiming

/-!
# The pipeline without latches

A machine that executes one word at a time, like the sequential machine, but that has read the
next word ahead of time: in front of the last two words executed, unless the fetch has gone
on at a wrong address behind the last one. It has no latches, no forwarding and no stalls.

Whatever the program does, the pipeline ends as this machine does, also if stores write to the
words behind them. No hypothesis on the program is left.

Results:

* `KeepsTo.cycle`: one cycle of the pipeline keeps to the words of the machine.
* `halts_iff_prefetcher_halts`: the CPU in which the pipeline halts is the machine's.
* `throws_iff_prefetcher_faults`: so is the state in front of a fault.
-/

namespace RvPipeline

open Isa

/-! ## The machine -/

/-- Registers and memory behind the words executed, and what the fetch has seen of them. -/
structure Prefetcher where
  arch : Arch
  /-- memory in front of the last word -/
  old : Mem
  /-- memory in front of the last two words -/
  older : Mem
  /-- the address at which the fetch has gone on behind the last word -/
  expected : Word
  view : FetchView
  path : List Fetched := []
  branches : ℕ := 0
  jumps : ℕ := 0
  writes : List MemoryWrite := []

namespace Prefetcher

/-- Nothing has been executed. -/
def start (cpu : CPU) : Prefetcher :=
  { arch := archOf cpu, old := cpu.memory, older := cpu.memory, expected := cpu.pc
    view := { predictor := cpu.branchPredictor }, writes := cpu.memoryWrites }

/-- The word that is executed next. -/
def next (c : Prefetcher) : Fetched :=
  ⟨c.arch.pc, if c.arch.pc = c.expected then c.older.word c.arch.pc else c.arch.fetch⟩

/-- The next word would access a byte past the end of memory. -/
def faults (c : Prefetcher) : Bool := c.arch.faults instrOf c.next.word

/-- Execute the word `x`. -/
def exec (type : BranchPredictorType) (c : Prefetcher) (x : Fetched) : Prefetcher :=
  { arch := Arch.execWord instrOf { c.arch with pc := x.pc } x.word
    old := c.arch.mem
    older := c.old
    expected := predictedPc type c.view.predictor x
    view := c.view.next type (observeAt instrOf branchesOf c.arch x)
    path := c.path ++ [x]
    branches := c.branches + (observeAt instrOf branchesOf c.arch x).length
    jumps := c.jumps + (observeAt instrOf jumpsAway c.arch x).length
    writes := c.writes ++ observeAt instrOf writesOf c.arch x }

/-- One step of the machine. -/
def step (type : BranchPredictorType) (c : Prefetcher) : Prefetcher :=
  if c.arch.Running ∧ c.faults = false then c.exec type c.next else c

/-- `n` steps of the machine. -/
def run (type : BranchPredictorType) (c : Prefetcher) : ℕ → Prefetcher
  | 0 => c
  | n + 1 => (c.run type n).step type

/-- The machine has halted after `n` steps. -/
def HaltsAt (type : BranchPredictorType) (c : Prefetcher) (n : ℕ) : Prop :=
  (c.run type n).arch.halted = true

/-- The machine reaches, after `n` steps, a load or store of a byte that does not exist. -/
def FaultsAt (type : BranchPredictorType) (c : Prefetcher) (n : ℕ) : Prop :=
  (c.run type n).arch.Running ∧ (c.run type n).faults = true

instance (type : BranchPredictorType) (c : Prefetcher) (n : ℕ) : Decidable (c.HaltsAt type n) :=
  inferInstanceAs (Decidable (_ = _))

instance (type : BranchPredictorType) (c : Prefetcher) (n : ℕ) : Decidable (c.FaultsAt type n) :=
  inferInstanceAs (Decidable (_ ∧ _))

/-- The statistics of the pipeline: every word takes a cycle, and so does every load that feeds
    the next word, every misprediction and every jump; then the pipeline drains. -/
def stats (c : Prefetcher) : ExecutionStats :=
  { clockCycles := c.path.length + loadUses c.path + c.view.missed + c.jumps + 4
    instructionCount := c.arch.instret
    stallCycles := loadUses c.path
    branchPredictions := c.branches
    branchMispredictions := c.view.missed }

/-- The CPU of the pipeline. -/
def cpu (config : Config) (c : Prefetcher) : CPU :=
  { config := config
    branchPredictor := trained config.branchPredictorType c.view.predictor c.view.late
    regs := c.arch.regs
    pc := c.arch.pc
    halted := c.arch.halted
    memory := c.arch.mem
    memoryWrites := c.writes
    stats := c.stats }

/-! ## Along a path -/

/-- Execute the words of `path`. -/
def along (type : BranchPredictorType) (c : Prefetcher) (path : List Fetched) : Prefetcher :=
  path.foldl (exec type) c

section

variable {type : BranchPredictorType} {c : Prefetcher} {cpu₀ : CPU} {p q : List Fetched}
  {x : Fetched} {n k : ℕ}

theorem along_snoc : c.along type (p ++ [x]) = (c.along type p).exec type x := by
  simp [along]

/-- **The machine along a path** is the replay of the path, with what is observed of it. -/
theorem along_start (type : BranchPredictorType) (cpu₀ : CPU) (path : List Fetched) :
    let c := (start cpu₀).along type path
    c.arch = replay instrOf (archOf cpu₀) path ∧
      c.old = (replay instrOf (archOf cpu₀) path.dropLast).mem ∧
      c.older = staleMem instrOf (archOf cpu₀) path ∧
      c.view = FetchView.along type (archOf cpu₀) { predictor := cpu₀.branchPredictor } path ∧
      c.path = path ∧
      c.branches = (observe instrOf branchesOf (archOf cpu₀) path).length ∧
      c.jumps = (observe instrOf jumpsAway (archOf cpu₀) path).length ∧
      c.writes = cpu₀.memoryWrites ++ observe instrOf writesOf (archOf cpu₀) path := by
  induction path using List.reverseRecOn with
  | nil => exact ⟨rfl, rfl, rfl, rfl, rfl, rfl, rfl, (List.append_nil _).symm⟩
  | append_singleton p x ih =>
    obtain ⟨harch, hold, -, hview, hpath, hbranches, hjumps, hwrites⟩ := ih
    rw [along_snoc]
    refine ⟨?_, ?_, ?_, ?_, ?_, ?_, ?_, ?_⟩
    · rw [exec, harch, replay_snoc]
    · rw [exec, harch, List.dropLast_concat]
    · rw [exec, hold, staleMem, List.dropLast_concat]
    · rw [exec, harch, hview, FetchView.along_snoc]
    · rw [exec, hpath]
    · rw [exec, harch, hbranches, observe_snoc, List.length_append]
    · rw [exec, harch, hjumps, observe_snoc, List.length_append]
    · rw [exec, harch, hwrites, observe_snoc, List.append_assoc]

/-- The address at which the fetch has gone on. -/
theorem expected_along_snoc : ((start cpu₀).along type (p ++ [x])).expected = predictedPc type
    (FetchView.along type (archOf cpu₀) { predictor := cpu₀.branchPredictor } p).predictor x := by
  rw [along_snoc, exec, (along_start type cpu₀ p).2.2.2.1]

/-- Behind a right prediction, the next word has been read in front of the last two. -/
theorem next_of_expected (h : c.arch.pc = c.expected) :
    c.next = ⟨c.arch.pc, c.older.word c.arch.pc⟩ := by
  rw [next, if_pos h]

/-- Behind a wrong prediction, it is read now. -/
theorem next_of_unexpected (h : c.arch.pc ≠ c.expected) :
    c.next = ⟨c.arch.pc, c.arch.fetch⟩ := by
  rw [next, if_neg h]

/-! ## The paths of the machine -/

/-- Every word of the path is the one that the machine executes next. -/
inductive Foreseen (type : BranchPredictorType) (c : Prefetcher) : List Fetched → Prop
  | nil : Foreseen type c []
  | snoc {path : List Fetched} {x : Fetched} : Foreseen type c path →
      (c.along type path).arch.Running → x = (c.along type path).next →
      Foreseen type c (path ++ [x])

theorem Foreseen.of_snoc (h : Foreseen type c (p ++ [x])) : Foreseen type c p ∧
    (c.along type p).arch.Running ∧ x = (c.along type p).next := by
  generalize hl : p ++ [x] = l at h
  cases h with
  | nil => simp at hl
  | snoc hp hr hx =>
    obtain ⟨rfl, hxx⟩ := List.append_inj' hl rfl
    cases hxx
    exact ⟨hp, hr, hx⟩

theorem Foreseen.of_append (h : Foreseen type c (p ++ q)) : Foreseen type c p := by
  induction q using List.reverseRecOn with
  | nil => rwa [List.append_nil] at h
  | append_singleton q x ih =>
    rw [← List.append_assoc] at h
    exact ih h.of_snoc.1

/-- The words of a path that is fault-free are executed. -/
theorem Foreseen.run_eq (h : Foreseen type (start cpu₀) p)
    (hf : FaultFree instrOf (archOf cpu₀) p) :
    (start cpu₀).run type p.length = (start cpu₀).along type p := by
  induction h with
  | nil => rfl
  | @snoc p x _ hr hx ih =>
    have hfaults : ((start cpu₀).along type p).faults = false := by
      rw [faults, ← hx, (along_start type cpu₀ p).1]
      exact hf p x [] rfl
    rw [List.length_append, List.length_singleton, run, ih hf.of_append, step,
      if_pos ⟨hr, hfaults⟩, along_snoc, hx]

/-! ## Runs that end -/

theorem run_stuck (h : ¬ (c.run type n).arch.Running ∨ c.FaultsAt type n) (k : ℕ) :
    c.run type (n + k) = c.run type n := by
  induction k with
  | zero => rfl
  | succ k ih =>
    rw [← Nat.add_assoc, run, ih, step, if_neg]
    rintro ⟨hr, hf⟩
    rcases h with h | h
    · exact h hr
    · rw [h.2] at hf
      cases hf

/-- Two places at which the machine is stuck are one. -/
theorem run_eq_of_stuck (hn : ¬ (c.run type n).arch.Running ∨ c.FaultsAt type n)
    (hk : ¬ (c.run type k).arch.Running ∨ c.FaultsAt type k) : c.run type n = c.run type k := by
  rcases Nat.le_total n k with hle | hle
  · obtain ⟨j, rfl⟩ := Nat.exists_eq_add_of_le hle
    exact (run_stuck hn j).symm
  · obtain ⟨j, rfl⟩ := Nat.exists_eq_add_of_le hle
    exact run_stuck hk j

theorem run_eq_of_haltsAt (hn : c.HaltsAt type n) (hk : c.HaltsAt type k) :
    c.run type n = c.run type k :=
  run_eq_of_stuck (Or.inl (not_running_of_halted hn)) (Or.inl (not_running_of_halted hk))

theorem run_eq_of_faultsAt (hn : c.FaultsAt type n) (hk : c.FaultsAt type k) :
    c.run type n = c.run type k :=
  run_eq_of_stuck (Or.inr hn) (Or.inr hk)

/-- The machine does not do both. -/
theorem not_faultsAt_of_haltsAt (hn : c.HaltsAt type n) : ¬ c.FaultsAt type k := by
  intro hk
  have hrun := hk.1
  rw [← run_eq_of_stuck (Or.inl (not_running_of_halted hn)) (Or.inr hk)] at hrun
  exact not_running_of_halted hn hrun

end

end Prefetcher

/-! ## The pipeline fetches the same words -/

section

variable {m₀ m m' m₁ : Machine} {t : Trace} {g : Slots} {x : Fetched}

/-- The machine behind the words of `path`. -/
def prefetcherAfter (m₀ : Machine) (path : List Fetched) : Prefetcher :=
  (Prefetcher.start m₀.cpu).along m₀.cpu.config.branchPredictorType path

theorem prefetcherAfter_arch (path : List Fetched) :
    (prefetcherAfter m₀ path).arch = replay instrOf (archOf m₀.cpu) path :=
  (Prefetcher.along_start _ _ path).1

theorem prefetcherAfter_older (path : List Fetched) :
    (prefetcherAfter m₀ path).older = staleMem instrOf (archOf m₀.cpu) path :=
  (Prefetcher.along_start _ _ path).2.2.1

/-- The words taken are those of the machine, and so is the one in `IF/ID`, unless the branch
    in `ID/EX` was mispredicted. -/
structure KeepsTo (m₀ : Machine) (g : Slots) (m : Machine) : Prop where
  foresight : Foresight m₀ g m
  taken : Prefetcher.Foreseen m₀.cpu.config.branchPredictorType (.start m₀.cpu) g.taken
  fetched : m.pipeline.ifId.valid = true → OnPath (archOf m₀.cpu) g m →
    ifWord m = (prefetcherAfter m₀ g.taken).next

theorem KeepsTo.start (h₀ : Initial m₀) : KeepsTo m₀ {} m₀ := by
  refine ⟨.start h₀, .nil, fun hv => ?_⟩
  rw [h₀.pipeline] at hv
  cases hv

/-- The fetch has gone on at a wrong address exactly if the instruction in `ID/EX` was
    mispredicted. -/
theorem Foresight.expected_iff (hf : Foresight m₀ g m) (h : Reached m₀ t g m)
    (hx : g.ex = some x) : (prefetcherAfter m₀ g.taken).expected =
      (prefetcherAfter m₀ g.taken).arch.pc ↔ OnPath (archOf m₀.cpu) g m := by
  have htaken : g.taken = g.executed ++ [x] := by rw [Slots.taken, hx, Option.toList_some]
  have hexpected : (prefetcherAfter m₀ g.taken).expected =
      predictedPc m₀.cpu.config.branchPredictorType (viewAfter m₀ g.executed).predictor x := by
    rw [htaken, prefetcherAfter, Prefetcher.expected_along_snoc]
    rfl
  rw [prefetcherAfter_arch, OnPath, hexpected]
  rcases h.inv.latches.idEx.dest with ⟨hnone, -⟩ | ⟨y, hy, hn, hv⟩ | ⟨y, i, hy, -, hv, -⟩
  · rw [hx] at hnone
    cases hnone
  · -- a word that is no instruction is followed by the next one
    rw [hx] at hy
    cases hy
    rw [hv, htaken, replay_skipped hn, predictedPc, hn]
    simp
  · rw [hx] at hy
    cases hy
    rw [hv, hf.decoded (by rw [hx]; rfl), hf.foretold.decoded x hx hv]
    simp

theorem eq_of_pc_of_word {x y : Fetched} (hpc : x.pc = y.pc) (hword : x.word = y.word) : x = y := by
  cases x
  cases y
  rw [Fetched.mk.injEq]
  exact ⟨hpc, hword⟩

/-- A word in `IF/ID` that has not been held has been fetched in this cycle. -/
theorem ifWord_of_fetch (hs : stalls m₁.pipeline = false)
    (hv : (afterMEM m₁).pipeline.ifId.valid = true) : (ifWord (afterMEM m₁)).word =
      m₁.cpu.memory.word (ifWord (afterMEM m₁)).pc := by
  obtain ⟨hstop, hcan⟩ := fetch_of_valid hs hv
  have hifId : (afterMEM m₁).pipeline.ifId = fetched (cpuAfterEX m₁.cpu m₁.pipeline) := by
    change nextIfId _ _ = _
    rw [nextIfId, hstop, hs, if_neg Bool.false_ne_true, if_neg Bool.false_ne_true, if_pos hcan]
  obtain ⟨-, hpc, hw⟩ := fetched_fields (cpuAfterEX m₁.cpu m₁.pipeline)
  rw [ifWord, hifId, hpc, hw]
  rfl

/-- After a redirect, the machine reads the next word again. -/
theorem KeepsTo.word_of_redirect (hf : KeepsTo m₀ g m) (h : Reached m₀ t g m)
    (ha : AfterMEM (archOf m₀.cpu) g m m₁) (hr : redirects m.pipeline = true) :
    (prefetcherAfter m₀ g.taken).next.word =
      m₁.cpu.memory.word (replay instrOf (archOf m₀.cpu) g.taken).pc := by
  obtain ⟨x, i, hx, hi, hflow, -⟩ := redirect_spec h.inv.committed h.inv.latches hr
  have hoff : ¬ OnPath (archOf m₀.cpu) g m := by
    rw [h.inv.latches.onPath_iff h.inv.committed, hr]
    exact Bool.noConfusion
  have hmem : m₁.cpu.memory = (replay instrOf (archOf m₀.cpu) g.taken).mem := by
    rw [Slots.taken, hx, Option.toList_some, replay_instr hi, Arch.exec_mem,
      Arch.memAfter_of_not_store (Instr.plain_of_flow hflow).2.1]
    exact ha.mem
  rw [Prefetcher.next_of_unexpected fun heq => hoff ((hf.foresight.expected_iff h hx).mp heq.symm),
    prefetcherAfter_arch, hmem]
  rfl

/-- Behind a right prediction, memory is as it was in front of the last two words. -/
theorem staleMem_of_take (hf : Front (archOf m₀.cpu) m₀.cpu.stats.clockCycles g m)
    (ha : AfterMEM (archOf m₀.cpu) g m m₁) (hv : m.pipeline.ifId.valid = true) :
    staleMem instrOf (archOf m₀.cpu) (g.taken ++ [x]) = m₁.cpu.memory := by
  rw [ha.mem, staleMem, List.dropLast_concat]
  cases hx : g.ex with
  | some y => rw [Slots.taken, hx, Option.toList_some, List.dropLast_concat]
  | none =>
    have hquiet := hf.quiet hx hv
    have hexec : g.taken = g.executed := by
      rw [Slots.taken, hx, Option.toList_none, List.append_nil]
    rw [hexec] at hquiet ⊢
    rw [replay_mem_dropLast hquiet]

/-- **One cycle** of the pipeline keeps to the words of the machine. -/
theorem KeepsTo.cycle (hf : KeepsTo m₀ g m) (h : Reached m₀ t g m) (hrun : m.cpu.halted = false)
    (hcycle : runPipelineCycle m = .ok () m') : KeepsTo m₀ (g.next (issuedIn m)) m' := by
  have hforesight := hf.foresight.cycle h hrun hcycle
  have hnext := h.next hrun hcycle
  have hc := h.inv.committed
  have hl := h.inv.latches
  obtain ⟨-, m₁, rfl, ha⟩ := h.inv.cycle_ok hcycle
  refine ⟨hforesight, ?_, fun hv hon => ?_⟩
  · rw [Slots.taken_next, issuedIn]
    split
    · rename_i htakes
      simp only [takes, Bool.and_eq_true, Bool.not_eq_true'] at htakes
      have hon := (hl.onPath_iff hc).mpr htakes.1.1
      have hrunning := (h.inv.front.next htakes.2 hon).running
      rw [← prefetcherAfter_arch] at hrunning
      exact hf.taken.snoc hrunning (hf.fetched htakes.2 hon)
    · rw [Option.toList_none, List.append_nil]
      exact hf.taken
  · have hpc := (hnext.inv.front.next hv hon).pc
    cases hs : stalls m.pipeline with
    | true =>
      have hheld := held_of_stalls hc hl h.inv.front ha hrun hs
      have hword : ifWord (afterMEM m₁) = ifWord m := by rw [ifWord, hheld, ifWord]
      rw [hheld] at hv
      rw [hword, issuedIn_of_stalls hs, taken_next_none]
      exact hf.fetched hv ((hl.onPath_iff hc).mpr (redirects_of_stalls hs))
    | false =>
      have hs₁ : stalls m₁.pipeline = false := ha.stalls_eq.trans hs
      have hword := ifWord_of_fetch hs₁ hv
      rw [hpc] at hword
      have hread : (ifWord (afterMEM m₁)).word =
          (prefetcherAfter m₀ (g.next (issuedIn m)).taken).next.word := by
        rw [hword]
        cases hr : redirects m.pipeline with
        | true =>
          have hissued : issuedIn m = none := by rw [issuedIn, takes, hr]; rfl
          rw [hissued, taken_next_none, hf.word_of_redirect h ha hr]
        | false =>
          cases hvalid : m.pipeline.ifId.valid with
          | true =>
            have hissued : issuedIn m = some (ifWord m) := by
              rw [issuedIn, takes, hr, hs, hvalid]
              rfl
            have hex : (g.next (issuedIn m)).ex = some (ifWord m) := hissued
            have hexpected := (hforesight.expected_iff hnext hex).mpr hon
            rw [Prefetcher.next_of_expected hexpected.symm, prefetcherAfter_arch,
              prefetcherAfter_older, hissued, Slots.taken_next, Option.toList_some,
              staleMem_of_take h.inv.front ha hvalid]
          | false =>
            -- nothing has been taken yet
            have hidle : idles m.pipeline = true := idles_iff.mpr ⟨hr, hvalid⟩
            obtain ⟨hstop, hcan⟩ := fetch_of_valid hs₁ hv
            have hnil := first_of_idles hc hl h.inv.front ha hrun hidle hstop hcan
            have hexec : g.executed = [] := (List.append_eq_nil_iff.mp hnil).1
            have hfirst : (prefetcherAfter m₀ []).arch.pc = (prefetcherAfter m₀ []).expected := rfl
            rw [issuedIn_of_idles hidle, taken_next_none, hnil, ha.mem, hexec,
              Prefetcher.next_of_expected hfirst, prefetcherAfter_arch, prefetcherAfter_older]
            rfl
      have hat : (ifWord (afterMEM m₁)).pc =
          (prefetcherAfter m₀ (g.next (issuedIn m)).taken).next.pc := by
        rw [hpc, ← prefetcherAfter_arch]
        rfl
      exact eq_of_pc_of_word hat hread

theorem Runs.keepsTo (h₀ : Initial m₀) (h : Runs m₀ t m) :
    ∃ g, Reached m₀ t g m ∧ KeepsTo m₀ g m := by
  induction h with
  | start => exact ⟨{}, .start h₀, .start h₀⟩
  | cycle _ hrun hcycle ih =>
    obtain ⟨g, hg, hf⟩ := ih
    exact ⟨_, hg.next hrun hcycle, hf.cycle hg hrun hcycle⟩

theorem Reached.foreseen (h₀ : Initial m₀) (h : Reached m₀ t g m) :
    Prefetcher.Foreseen m₀.cpu.config.branchPredictorType (.start m₀.cpu) g.taken := by
  obtain ⟨g', hg', hf⟩ := h.run.keepsTo h₀
  rw [← h.account.issued, hg'.account.issued]
  exact hf.taken

/-- The machine comes past the words whose memory access has been performed. -/
theorem Reached.run_accessed (h₀ : Initial m₀) (h : Reached m₀ t g m) :
    (Prefetcher.start m₀.cpu).run m₀.cpu.config.branchPredictorType g.accessed.length =
      prefetcherAfter m₀ g.accessed := by
  have hforeseen := h.foreseen h₀
  rw [Slots.taken_eq_accessed] at hforeseen
  exact hforeseen.of_append.run_eq h.account.faultFree

/-! ## Runs that end -/

/-- The machine has halted after `n` steps, or cannot execute the next one. -/
def PrefetcherEnds (m₀ : Machine) (n : ℕ) : Prop :=
  (Prefetcher.start m₀.cpu).HaltsAt m₀.cpu.config.branchPredictorType n ∨
    (Prefetcher.start m₀.cpu).FaultsAt m₀.cpu.config.branchPredictorType n

/-- A machine that has ended does not execute another word. -/
theorem PrefetcherEnds.length_le {n : ℕ} {path : List Fetched} (h : PrefetcherEnds m₀ n)
    (hpath : Prefetcher.Foreseen m₀.cpu.config.branchPredictorType (.start m₀.cpu) path)
    (hff : FaultFree instrOf (archOf m₀.cpu) path) : path.length ≤ n := by
  by_contra hlt
  rw [not_le] at hlt
  have hsplit : path = path.take n ++ [path[n]] ++ path.drop (n + 1) := by simp
  have hlen : (path.take n).length = n := List.length_take_of_le (Nat.le_of_lt hlt)
  rw [hsplit] at hpath hff
  obtain ⟨hpre, hrunning, hnext⟩ := hpath.of_append.of_snoc
  have hrun := hpre.run_eq hff.of_append.of_append
  rw [hlen] at hrun
  rcases h with hh | ⟨-, hfault⟩
  · rw [Prefetcher.HaltsAt, hrun] at hh
    rw [hrunning.1] at hh
    cases hh
  · have hok := hff.of_append (path.take n) path[n] [] rfl
    rw [hrun, Prefetcher.faults, ← hnext, (Prefetcher.along_start _ _ _).1, hok] at hfault
    cases hfault

/-- It does not end where there is no word to fetch. -/
theorem PrefetcherEnds.fetchable {n : ℕ} {path : List Fetched} (h : PrefetcherEnds m₀ n)
    (hpath : Prefetcher.Foreseen m₀.cpu.config.branchPredictorType (.start m₀.cpu) path)
    (hff : FaultFree instrOf (archOf m₀.cpu) path)
    (hrun : (replay instrOf (archOf m₀.cpu) path).halted = false) :
    (replay instrOf (archOf m₀.cpu) path).Fetchable := by
  by_contra hnot
  obtain ⟨k, rfl⟩ := Nat.exists_eq_add_of_le (h.length_le hpath hff)
  have hreached := hpath.run_eq hff
  have harch :=
    (Prefetcher.along_start m₀.cpu.config.branchPredictorType m₀.cpu path).1
  have hdry : ¬ ((Prefetcher.start m₀.cpu).run m₀.cpu.config.branchPredictorType
      path.length).arch.Running := by
    rw [hreached, harch]
    exact fun hr => hnot hr.2
  have hstuck := Prefetcher.run_stuck (Or.inl hdry) k
  rcases h with hh | ⟨hr, -⟩
  · rw [Prefetcher.HaltsAt, hstuck, hreached, harch, hrun] at hh
    cases hh
  · rw [hstuck] at hr
    exact hdry hr

/-- **The pipeline ends** if the machine does. -/
theorem PrefetcherEnds.ends {n : ℕ} (h₀ : Initial m₀) (hn : PrefetcherEnds m₀ n) :
    (∃ t m, HaltsIn m₀ t m) ∨ ∃ m, ThrowsIn m₀ m := by
  have hacc : ∀ {t g m}, Reached m₀ t g m → g.accessed.length ≤ n := by
    intro t g m hm
    have hforeseen := hm.foreseen h₀
    rw [Slots.taken_eq_accessed] at hforeseen
    exact hn.length_le hforeseen.of_append hm.account.faultFree
  by_cases hdry : ∃ t g m, Reached m₀ t g m ∧ m.cpu.halted = false ∧
      Starved (archOf m₀.cpu) g m
  · -- let what is in flight drain
    obtain ⟨t, g, m, hm, hrun, hs⟩ := hdry
    rcases hm.starved_step hs hrun with hthrows | ⟨t₁, m₁, hm₁, hrun₁, hs₁⟩
    · exact Or.inr hthrows
    rcases hm₁.starved_step hs₁ hrun₁ with hthrows | ⟨t₂, m₂, hm₂, hrun₂, hs₂⟩
    · exact Or.inr hthrows
    have htaken : ((g.next none).next none).accessed = ((g.next none).next none).taken := by
      rw [Slots.taken_eq_accessed]
      exact (List.append_nil _).symm
    have hff := hm₂.account.faultFree
    rw [htaken] at hff
    exact absurd (hn.fetchable (hm₂.foreseen h₀) hff hs₂.running) (hm₂.not_fetchable hs₂)
  · refine ends_of_bounded h₀ (n + 2) fun t g m hm hrun => ⟨?_, fun hs => ?_⟩
    · have hlen := hacc hm
      rw [Slots.taken_eq_accessed, List.length_append, List.length_append]
      have hmem : g.mem.toList.length ≤ 1 := by cases g.mem <;> simp
      have hex : g.ex.toList.length ≤ 1 := by cases g.ex <;> simp
      omega
    · exact hdry ⟨t, g, m, hm, hrun, hs⟩

/-- The machine comes past all words of a run that has halted. -/
theorem HaltsIn.run_issued (h₀ : Initial m₀) (h : HaltsIn m₀ t m) :
    (Prefetcher.start m₀.cpu).run m₀.cpu.config.branchPredictorType t.issued.length =
      prefetcherAfter m₀ t.issued := by
  have hfin := h.finished h₀
  obtain ⟨g, hg, hf⟩ := h.1.keepsTo h₀
  have hforeseen := hf.taken
  rw [← hg.account.issued] at hforeseen
  exact hforeseen.run_eq hfin.faultFree

/-- Where a run has halted, the machine has. -/
theorem HaltsIn.haltsAt (h₀ : Initial m₀) (h : HaltsIn m₀ t m) :
    (Prefetcher.start m₀.cpu).HaltsAt m₀.cpu.config.branchPredictorType t.issued.length := by
  rw [Prefetcher.HaltsAt, h.run_issued h₀, prefetcherAfter_arch]
  exact (h.finished h₀).halted

/-- Where a cycle throws, the machine faults. -/
theorem Reached.faultsAt (h₀ : Initial m₀) (h : Reached m₀ t g m)
    (hf : MemFaults (archOf m₀.cpu) g) : (Prefetcher.start m₀.cpu).FaultsAt
      m₀.cpu.config.branchPredictorType g.accessed.length := by
  obtain ⟨x, hx, hfault⟩ := hf
  have hforeseen := h.foreseen h₀
  have htaken : g.taken = g.accessed ++ [x] ++ g.ex.toList := by
    rw [Slots.taken, Slots.executed, hx, Option.toList_some]
  rw [htaken] at hforeseen
  obtain ⟨-, hrunning, hnext⟩ := hforeseen.of_append.of_snoc
  rw [Prefetcher.FaultsAt, h.run_accessed h₀, Prefetcher.faults, prefetcherAfter_arch]
  refine ⟨?_, ?_⟩
  · rwa [(Prefetcher.along_start _ _ g.accessed).1] at hrunning
  · rw [prefetcherAfter, ← hnext]
    exact hfault

/-- **The CPU of a halted run** is the CPU of the machine. -/
theorem HaltsIn.cpu_eq (h₀ : Initial m₀) (hstats : m₀.cpu.stats = {}) (h : HaltsIn m₀ t m) :
    m.cpu = (prefetcherAfter m₀ t.issued).cpu m₀.cpu.config := by
  have hfin := h.finished h₀
  have hstate := hfin.state
  have hlog := hfin.log
  have hpredictor := hfin.predictor
  have hall := h.stats h₀ hstats
  obtain ⟨g, hg⟩ := h.1.reached h₀
  have hconfig := hg.inv.config
  obtain ⟨harch, -, -, hview, hpath, hbranches, hjumps, hwrites⟩ :=
    Prefetcher.along_start m₀.cpu.config.branchPredictorType m₀.cpu t.issued
  have hstats' : (prefetcherAfter m₀ t.issued).stats = m.cpu.stats := by
    rw [hall, Prefetcher.stats, prefetcherAfter, harch, hview, hpath, hbranches, hjumps, traceStats,
      replay_instret, ← List.countP_eq_length_filter]
    rw [show (archOf m₀.cpu).instret = 0 from congrArg ExecutionStats.instructionCount hstats,
      Nat.zero_add]
  rw [Prefetcher.cpu, hstats', prefetcherAfter, harch, hview, hwrites, FetchView.trained_along,
    ← hstate, ← hlog, ← hpredictor, ← hconfig]
  rfl

/-- **The pipeline is the prefetching machine**, for every program and every predictor: it halts
    exactly if the machine does, and then the whole CPU, its statistics, its write log and its
    predictor are those of the machine. -/
theorem halts_iff_prefetcher_halts (h₀ : Initial m₀) (hstats : m₀.cpu.stats = {}) :
    ((∃ t m, HaltsIn m₀ t m) ↔
        ∃ n, (Prefetcher.start m₀.cpu).HaltsAt m₀.cpu.config.branchPredictorType n) ∧
      ∀ t m, HaltsIn m₀ t m →
        ∀ n, (Prefetcher.start m₀.cpu).HaltsAt m₀.cpu.config.branchPredictorType n →
          m.cpu = ((Prefetcher.start m₀.cpu).run m₀.cpu.config.branchPredictorType n).cpu
            m₀.cpu.config := by
  refine ⟨⟨?_, ?_⟩, ?_⟩
  · rintro ⟨t, m, hm⟩
    exact ⟨_, hm.haltsAt h₀⟩
  · rintro ⟨n, hn⟩
    rcases PrefetcherEnds.ends h₀ (Or.inl hn) with hhalts | ⟨m, hthrows⟩
    · exact hhalts
    · obtain ⟨t, g, m₁, hg, hf, -⟩ := hthrows.reached h₀
      exact absurd (hg.faultsAt h₀ hf) (Prefetcher.not_faultsAt_of_haltsAt hn)
  · intro t m hm n hn
    rw [Prefetcher.run_eq_of_haltsAt hn (hm.haltsAt h₀), hm.run_issued h₀]
    exact hm.cpu_eq h₀ hstats

/-- A store to the word right behind it, which is executed as it was before. -/
def overtaken : Machine :=
  .ofProgram [0x00200137, 0x09310113, 0x00202623, 0x00100093, 0x00000073]

theorem overtaken_halts : ∃ t m, HaltsIn overtaken t m ∧ m.cpu.readReg 1 = 1#32 ∧
    m.cpu.memory.word 12 = 0x00200093#32 ∧ m.cpu.stats.clockCycles = 9 := by
  have hend : (Prefetcher.start overtaken.cpu).HaltsAt .twoBitSaturating 5 := by decide +kernel
  obtain ⟨hiff, hcpu⟩ := @halts_iff_prefetcher_halts overtaken ⟨rfl, rfl⟩ rfl
  obtain ⟨t, m, hm⟩ := hiff.mpr ⟨5, hend⟩
  refine ⟨t, m, hm, ?_⟩
  rw [hcpu t m hm 5 hend]
  decide +kernel

/-- **Faults are those of the prefetching machine**: some cycle throws exactly if the machine
    reaches an access out of range, with registers, memory and instruction count as they are
    in front of it. -/
theorem throws_iff_prefetcher_faults (h₀ : Initial m₀) :
    ((∃ m, ThrowsIn m₀ m) ↔
        ∃ n, (Prefetcher.start m₀.cpu).FaultsAt m₀.cpu.config.branchPredictorType n) ∧
      ∀ m, ThrowsIn m₀ m →
        ∀ n, (Prefetcher.start m₀.cpu).FaultsAt m₀.cpu.config.branchPredictorType n →
          let c := (Prefetcher.start m₀.cpu).run m₀.cpu.config.branchPredictorType n
          m.cpu.regs = c.arch.regs ∧ m.cpu.memory = c.arch.mem ∧ m.cpu.memoryWrites = c.writes ∧
            m.cpu.stats.instructionCount = c.arch.instret := by
  refine ⟨⟨?_, ?_⟩, ?_⟩
  · rintro ⟨m, hm⟩
    obtain ⟨t, g, m₁, hg, hf, -⟩ := hm.reached h₀
    exact ⟨_, hg.faultsAt h₀ hf⟩
  · rintro ⟨n, hn⟩
    rcases PrefetcherEnds.ends h₀ (Or.inr hn) with ⟨t, m, hm⟩ | hthrows
    · exact absurd hn (Prefetcher.not_faultsAt_of_haltsAt (hm.haltsAt h₀))
    · exact hthrows
  · intro m hm n hn
    obtain ⟨t, g, m₁, hg, hf, rfl⟩ := hm.reached h₀
    have hwb := afterWB hg.inv.committed hg.inv.latches
    obtain ⟨regs, halted, k, hrest⟩ := hwb.rest
    obtain ⟨harch, -, -, -, -, -, -, hwrites⟩ :=
      Prefetcher.along_start m₀.cpu.config.branchPredictorType m₀.cpu g.accessed
    intro c
    have hc : c = prefetcherAfter m₀ g.accessed := by
      rw [← hg.run_accessed h₀]
      exact Prefetcher.run_eq_of_faultsAt hn (hg.faultsAt h₀ hf)
    rw [hc, prefetcherAfter, harch, hwrites]
    refine ⟨hwb.regs, ?_, ?_, hwb.instret⟩
    · rw [hrest]
      exact hg.inv.committed.mem
    · rw [hrest]
      exact hg.account.log

/-- An instruction, and a store behind the end of memory. -/
def strayStore : Machine := .ofProgram [0x00700093, 0x06102223]

theorem strayStore_throws : ∃ m, ThrowsIn strayStore m ∧ m.cpu.memory = strayStore.cpu.memory ∧
    m.cpu.stats.instructionCount = 1 := by
  have hend : (Prefetcher.start strayStore.cpu).FaultsAt .twoBitSaturating 1 := by decide +kernel
  obtain ⟨hiff, hstate⟩ := @throws_iff_prefetcher_faults strayStore ⟨rfl, rfl⟩
  obtain ⟨m, hm⟩ := hiff.mpr ⟨1, hend⟩
  obtain ⟨-, hmemory, -, hcount⟩ := hstate m hm 1 hend
  exact ⟨m, hm, hmemory, hcount⟩

end

end RvPipeline
