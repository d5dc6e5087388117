import RvPipeline.Isa.Extend
import RvPipeline.Properties.Prefetcher

/-!
# The size of memory

How much memory the simulator is given decides which accesses fault, and nothing else. Words
are fetched ahead of time, along predicted paths that may leave the smaller memory, so this is
not a property of single cycles; but it is one of the machine without latches.

Results:

* `Prefetcher.step_extend`: one step of the machine with more memory.
* `more_memory_same_run`: a program that halts still halts with more memory, whatever it
  holds, in the same CPU and after as many cycles.
-/

namespace RvPipeline

open Isa

/-! ## The machine with more memory -/

namespace Prefetcher

/-- More bytes behind the end of memory. -/
def extend (c : Prefetcher) (e : Mem) : Prefetcher :=
  { c with arch := c.arch.extend e, old := c.old ++ e, older := c.older ++ e }

/-- What the fetch has seen of memory is as large as memory. -/
structure Sized (c : Prefetcher) : Prop where
  old : c.old.length = c.arch.mem.length
  older : c.older.length = c.arch.mem.length

section

variable {type : BranchPredictorType} {c : Prefetcher} {cpu₀ : CPU} {n : ℕ}

theorem Sized.start : (start cpu₀).Sized := ⟨rfl, rfl⟩

theorem Sized.exec (h : c.Sized) (x : Fetched) : (c.exec type x).Sized := by
  refine ⟨?_, ?_⟩
  · exact (Arch.execWord_mem_length instrOf { c.arch with pc := x.pc } x.word).symm
  · exact h.old.trans (Arch.execWord_mem_length instrOf { c.arch with pc := x.pc } x.word).symm

theorem Sized.step (h : c.Sized) : (c.step type).Sized := by
  unfold Prefetcher.step
  split
  · exact h.exec _
  · exact h

theorem Sized.run (h : c.Sized) (n : ℕ) : (c.run type n).Sized := by
  induction n with
  | zero => exact h
  | succ n ih => exact ih.step

/-- The next word lies in the smaller memory. -/
theorem next_extend (hs : c.Sized) (h : c.arch.Running) (e : Mem) : (c.extend e).next = c.next := by
  have hfetch : c.arch.pc.toNat + 4 ≤ c.arch.mem.length := h.2
  have hnow : (c.arch.extend e).fetch = c.arch.fetch := Mem.word_append hfetch e
  have hbefore : Mem.word (c.older ++ e) c.arch.pc = c.older.word c.arch.pc :=
    Mem.word_append (by rwa [hs.older]) e
  change Fetched.mk c.arch.pc (if c.arch.pc = c.expected then Mem.word (c.older ++ e) c.arch.pc
    else (c.arch.extend e).fetch) = _
  rw [hbefore, hnow]
  rfl

theorem exec_extend {x : Fetched} (h : c.arch.faults instrOf x.word = false) (e : Mem) :
    (c.extend e).exec type x = (c.exec type x).extend e := by
  have hfaults : (c.arch.goto x.pc).faults instrOf x.word = false := by
    cases hx : instrOf x.word with
    | none => simp [Arch.faults, Arch.accessOf, hx]
    | some i =>
      rw [← @accessFaults_goto _ 0 _ _ hx] at h ⊢
      exact h
  have hword : Arch.execWord instrOf { c.arch.extend e with pc := x.pc } x.word =
      (Arch.execWord instrOf { c.arch with pc := x.pc } x.word).extend e :=
    Arch.execWord_extend hfaults e
  have hbranches : observeAt instrOf branchesOf (c.arch.extend e) x =
      observeAt instrOf branchesOf c.arch x :=
    observeAt_extend (fun _ i => by cases i <;> rfl) _ x
  have hjumps : observeAt instrOf jumpsAway (c.arch.extend e) x =
      observeAt instrOf jumpsAway c.arch x :=
    observeAt_extend (fun _ i => by cases i <;> rfl) _ x
  have hwrites : observeAt instrOf writesOf (c.arch.extend e) x =
      observeAt instrOf writesOf c.arch x :=
    observeAt_extend (fun _ i => by cases i <;> rfl) _ x
  change Prefetcher.mk (Arch.execWord instrOf { c.arch.extend e with pc := x.pc } x.word)
    (c.arch.mem ++ e) (c.old ++ e) _ (c.view.next type _) _ _ _ _ = _
  rw [hword]
  simp only [extend, hbranches, hjumps, hwrites]
  rfl

/-- **One step** of a machine that is not stuck. -/
theorem step_extend (hs : c.Sized)
    (h : c.arch.halted = true ∨ (c.arch.Running ∧ c.faults = false)) (e : Mem) :
    (c.extend e).step type = (c.step type).extend e := by
  rcases h with hh | ⟨hr, hf⟩
  · have hstop : ¬ c.arch.Running := not_running_of_halted hh
    have hstop' : ¬ (c.extend e).arch.Running := not_running_of_halted hh
    rw [step, step, if_neg fun h => hstop' h.1, if_neg fun h => hstop h.1]
  · have hnext := next_extend hs hr e
    have hf' : (c.extend e).faults = false := by
      rw [faults, hnext]
      exact Arch.faults_extend hf e
    rw [step, step, if_pos ⟨hr.extend e, hf'⟩, if_pos ⟨hr, hf⟩, hnext, exec_extend hf]

/-- A machine that halts is never stuck before. -/
theorem moves_of_haltsAt {k : ℕ} (h : c.HaltsAt type n) : (c.run type k).arch.halted = true ∨
    ((c.run type k).arch.Running ∧ (c.run type k).faults = false) := by
  by_cases hr : (c.run type k).arch.Running
  · cases hf : (c.run type k).faults with
    | false => exact Or.inr ⟨hr, rfl⟩
    | true => exact absurd ⟨hr, hf⟩ (not_faultsAt_of_haltsAt h)
  · left
    rw [run_eq_of_stuck (Or.inl hr) (Or.inl (not_running_of_halted h))]
    exact h

/-- **A run that halts** goes on as before with more memory. -/
theorem run_extend (hs : c.Sized) (h : c.HaltsAt type n) (e : Mem) (k : ℕ) :
    (c.extend e).run type k = (c.run type k).extend e := by
  induction k with
  | zero => rfl
  | succ k ih => rw [run, run, ih, step_extend (hs.run k) (moves_of_haltsAt h)]

end

end Prefetcher

/-! ## The pipeline with more memory -/

/-- The bytes `extra` behind the end of memory. -/
def CPU.grown (cpu : CPU) (extra : Mem) : CPU := { cpu with memory := cpu.memory ++ extra }

/-- The same machine, with more memory. -/
def Machine.grown (m : Machine) (extra : Mem) : Machine := { m with cpu := m.cpu.grown extra }

/-- **More memory does not change a run that halts**, for any program and any predictor, whatever
    the additional bytes hold: the run with more memory halts too, with the same registers,
    `pc`, write log, predictor counters and statistics, and with the same memory in front
    of the additional bytes, which are as they were. -/
theorem more_memory_same_run {m₀ m : Machine} {t : Trace} (h₀ : Initial m₀)
    (hstats : m₀.cpu.stats = {}) (h : HaltsIn m₀ t m) (extra : Mem) :
    ∃ t' m', HaltsIn (m₀.grown extra) t' m' ∧ m'.cpu = m.cpu.grown extra := by
  have h₀' : Initial (m₀.grown extra) := ⟨h₀.pipeline, h₀.halted⟩
  obtain ⟨-, hcpu⟩ := halts_iff_prefetcher_halts h₀ hstats
  obtain ⟨hiff, hcpu'⟩ := halts_iff_prefetcher_halts h₀' hstats
  have hn := h.haltsAt h₀
  have hgrown := Prefetcher.run_extend .start hn extra t.issued.length
  have hn' : (Prefetcher.start (m₀.grown extra).cpu).HaltsAt
      (m₀.grown extra).cpu.config.branchPredictorType t.issued.length := by
    rw [Prefetcher.HaltsAt]
    change (((Prefetcher.start m₀.cpu).extend extra).run m₀.cpu.config.branchPredictorType
      t.issued.length).arch.halted = true
    rw [hgrown]
    exact hn
  obtain ⟨t', m', hm'⟩ := hiff.mpr ⟨_, hn'⟩
  refine ⟨t', m', hm', ?_⟩
  rw [hcpu' t' m' hm' _ hn', hcpu t m h _ hn]
  change (((Prefetcher.start m₀.cpu).extend extra).run m₀.cpu.config.branchPredictorType
    t.issued.length).cpu m₀.cpu.config = _
  rw [hgrown]
  rfl

/-- A branch that is not taken, but predicted to leave memory. -/
def strayFetch : Machine :=
  .ofProgram [0x00500093, 0x04001063, 0x00000073] { branchPredictorType := .alwaysTaken }

theorem strayFetch_grown : ∃ t m, HaltsIn (strayFetch.grown (List.replicate 80 0x73)) t m ∧
    m.cpu.readReg 1 = 5#32 ∧ m.cpu.stats.branchMispredictions = 1 ∧
    m.cpu.memory.byte 12 = 0x73#8 := by
  obtain ⟨t, m, hm, hx⟩ := exists_haltsIn strayFetch 8
    (fun x => x.2.cpu.readReg 1 == 5#32 && x.2.cpu.stats.branchMispredictions == 1 &&
      x.2.cpu.memory.length == 12) (by decide +kernel)
  simp only [Bool.and_eq_true, beq_iff_eq] at hx
  have hinit : Initial strayFetch := ⟨rfl, rfl⟩
  obtain ⟨t', m', hm', hcpu⟩ := more_memory_same_run hinit rfl hm (List.replicate 80 0x73)
  refine ⟨t', m', hm', ?_⟩
  rw [hcpu]
  refine ⟨hx.1.1, hx.1.2, ?_⟩
  change (m.cpu.memory ++ List.replicate 80 0x73#8).getD 12 0 = _
  rw [List.getD_eq_getElem?_getD, List.getElem?_append_right (Nat.le_of_eq hx.2), hx.2]
  rfl

end RvPipeline
