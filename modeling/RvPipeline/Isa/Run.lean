import RvPipeline.Isa.Arch

/-!
# Sequential runs

`seqRun` fetches and executes one word at a time. It is parametrised by `dec`,
which says which instruction a word stands for (`none` for a word that is
skipped), and makes no progress in a state that has stopped, whose `pc` is
outside memory, or whose instruction would access a byte that does not exist.
-/

namespace RvPipeline.Isa

variable (dec : Word → Option Instr)

/-! ## One word -/

/-- Execute the word `w` at `s.pc`; a word that is no instruction is skipped. -/
def Arch.execWord (s : Arch) (w : Word) : Arch :=
  match dec w with
  | some i => s.exec i
  | none => { s with pc := s.pc + 4 }

/-- The next word lies inside memory. -/
def Arch.Fetchable (s : Arch) : Prop := s.pc.toNat + 4 ≤ s.mem.length

instance (s : Arch) : Decidable s.Fetchable := inferInstanceAs (Decidable (_ ≤ _))

/-- The word at `pc`. -/
def Arch.fetch (s : Arch) : Word := s.mem.word s.pc

/-- The hart fetches another word. -/
def Arch.Running (s : Arch) : Prop := s.halted = false ∧ s.Fetchable

instance (s : Arch) : Decidable s.Running := inferInstanceAs (Decidable (_ ∧ _))

/-- The memory access of a word. -/
def Arch.accessOf (s : Arch) (w : Word) : Option (Word × ℕ) := (dec w).bind s.access

/-- The bytes a word stores to. -/
def Arch.storeOf (s : Arch) (w : Word) : Option (Word × ℕ) := (dec w).bind s.storeAccess

/-- The word `w` would access a byte past the end of memory. -/
def Arch.faults (s : Arch) (w : Word) : Bool :=
  (s.accessOf dec w).any fun x => s.mem.length < x.1.toNat + x.2

theorem Arch.execWord_some {dec : Word → Option Instr} {s : Arch} {w : Word} {i : Instr}
    (h : dec w = some i) : s.execWord dec w = s.exec i := by
  simp [Arch.execWord, h]

theorem Arch.execWord_none {dec : Word → Option Instr} {s : Arch} {w : Word}
    (h : dec w = none) : s.execWord dec w = { s with pc := s.pc + 4 } := by
  simp [Arch.execWord, h]

@[simp] theorem Arch.execWord_mem_length (s : Arch) (w : Word) :
    (s.execWord dec w).mem.length = s.mem.length := by
  unfold Arch.execWord
  split <;> simp

theorem Arch.execWord_byte {dec : Word → Option Instr} {s : Arch} {w b : Word}
    (h : ∀ a n, s.storeOf dec w = some (a, n) → ¬ Touches a n b) :
    (s.execWord dec w).mem.byte b = s.mem.byte b := by
  unfold Arch.execWord
  split
  · rename_i i hi
    exact Arch.exec_byte fun a n ha => h a n (by simp [Arch.storeOf, hi, ha])
  · rfl

theorem Arch.execWord_halted_of_halted {s : Arch} (w : Word) (h : s.halted = true) :
    (s.execWord dec w).halted = true := by
  unfold Arch.execWord
  split <;> simp [Arch.exec_halted, h]

/-! ## The sequential run -/

/-- One step of the sequential machine. -/
def seqStep (s : Arch) : Arch :=
  if s.Running ∧ s.faults dec s.fetch = false then s.execWord dec s.fetch else s

/-- `n` steps of the sequential machine. -/
def seqRun (s : Arch) : ℕ → Arch
  | 0 => s
  | n + 1 => seqStep dec (seqRun s n)

/-- The sequential run from `s` reaches, after `n` steps, a load or store of a
    byte that does not exist. -/
def SeqFaults (s : Arch) (n : ℕ) : Prop :=
  (seqRun dec s n).Running ∧ (seqRun dec s n).faults dec (seqRun dec s n).fetch = true

/-- No store of the run from `s` writes a byte of either of the next two words
    the run fetches after it. -/
def StoresSpareNextTwo (s : Arch) : Prop :=
  ∀ n a k, (seqRun dec s n).Running → ¬ SeqFaults dec s n →
    (seqRun dec s n).storeOf dec (seqRun dec s n).fetch = some (a, k) →
    ∀ j, j = 1 ∨ j = 2 → (seqRun dec s (n + j)).Running →
      ∀ b, Touches a k b → ¬ Touches (seqRun dec s (n + j)).pc 4 b

variable {dec}

theorem seqRun_succ_of_running {s : Arch} {n : ℕ} (hr : (seqRun dec s n).Running)
    (hf : ¬ SeqFaults dec s n) :
    seqRun dec s (n + 1) = (seqRun dec s n).execWord dec (seqRun dec s n).fetch := by
  have : (seqRun dec s n).faults dec (seqRun dec s n).fetch = false := by
    simpa [SeqFaults, hr] using hf
  rw [seqRun, seqStep, if_pos ⟨hr, this⟩]

theorem seqRun_stuck {s : Arch} {n : ℕ}
    (h : ¬ (seqRun dec s n).Running ∨ SeqFaults dec s n) (k : ℕ) :
    seqRun dec s (n + k) = seqRun dec s n := by
  induction k with
  | zero => rfl
  | succ k ih =>
    rw [← Nat.add_assoc, seqRun, ih, seqStep, if_neg]
    rintro ⟨hr, hf⟩
    rcases h with h | h
    · exact h hr
    · rw [h.2] at hf
      cases hf

/-! ## Runs that end -/

/-- The sequential run from `s` has halted or faults at its `n`-th step. -/
def SeqEnds (dec : Word → Option Instr) (s : Arch) (n : ℕ) : Prop :=
  (seqRun dec s n).halted = true ∨ SeqFaults dec s n

instance (s : Arch) (n : ℕ) : Decidable (SeqFaults dec s n) := inferInstanceAs (Decidable (_ ∧ _))

theorem not_running_of_halted {s : Arch} (h : s.halted = true) : ¬ s.Running := by
  rintro ⟨hr, -⟩
  rw [h] at hr
  cases hr

/-- Once the run has halted, it stays where it is. -/
theorem seqRun_of_halted {s : Arch} {n k : ℕ} (h : (seqRun dec s n).halted = true) (hk : n ≤ k) :
    seqRun dec s k = seqRun dec s n := by
  obtain ⟨j, rfl⟩ := Nat.exists_eq_add_of_le hk
  exact seqRun_stuck (Or.inl (not_running_of_halted h)) j

theorem seqRun_eq_of_halted {s : Arch} {n k : ℕ} (hn : (seqRun dec s n).halted = true)
    (hk : (seqRun dec s k).halted = true) : seqRun dec s n = seqRun dec s k := by
  rcases Nat.le_total n k with hle | hle
  · exact (seqRun_of_halted hn hle).symm
  · exact seqRun_of_halted hk hle

/-- A run that fetches another word has not halted before. -/
theorem lt_of_running {s : Arch} {n k : ℕ} (hk : (seqRun dec s k).halted = true)
    (hn : (seqRun dec s n).Running) : n < k := by
  by_contra hle
  rw [seqRun_of_halted hk (Nat.le_of_not_lt hle)] at hn
  exact not_running_of_halted hk hn

/-- A run that halts has to be looked at only until then. -/
theorem not_seqFaults_of_halted {s : Arch} {k : ℕ} (hk : (seqRun dec s k).halted = true)
    (h : ∀ n < k, ¬ SeqFaults dec s n) (n : ℕ) : ¬ SeqFaults dec s n :=
  fun hf => h n (lt_of_running hk hf.1) hf

theorem lt_of_seqEnds {s : Arch} {n k : ℕ} (hk : SeqEnds dec s k) (hn : (seqRun dec s n).Running)
    (hf : ¬ SeqFaults dec s n) : n < k := by
  rcases hk with hh | hk
  · exact lt_of_running hh hn
  · by_contra hle
    obtain ⟨j, rfl⟩ := Nat.exists_eq_add_of_le (Nat.le_of_not_lt hle)
    rw [SeqFaults, seqRun_stuck (Or.inr hk)] at hf
    exact hf hk

theorem storesSpareNextTwo_of_seqEnds {s : Arch} {k : ℕ} (hk : SeqEnds dec s k)
    (h : ∀ n < k, ∀ x ∈ (seqRun dec s n).storeOf dec (seqRun dec s n).fetch, ∀ i < x.2,
      ¬ Touches (seqRun dec s (n + 1)).pc 4 (x.1 + BitVec.ofNat 32 i) ∧
      ¬ Touches (seqRun dec s (n + 2)).pc 4 (x.1 + BitVec.ofNat 32 i)) :
    StoresSpareNextTwo dec s := by
  intro n a w hr hf hst j hj _ b hb
  obtain ⟨i, hi, rfl⟩ := hb
  obtain ⟨h1, h2⟩ := h n (lt_of_seqEnds hk hr hf) (a, w) hst i hi
  rcases hj with rfl | rfl
  · exact h1
  · exact h2

/-! ## Counting instructions -/

theorem seqRun_instret_le (s : Arch) (n k : ℕ) :
    (seqRun dec s n).instret ≤ (seqRun dec s (n + k)).instret := by
  induction k with
  | zero => exact Nat.le_refl _
  | succ k ih =>
    refine Nat.le_trans ih ?_
    rw [← Nat.add_assoc, seqRun, seqStep]
    split
    · rw [Arch.execWord]
      split
      · rw [Arch.exec_instret]
        exact Nat.le_succ _
      · exact Nat.le_refl _
    · exact Nat.le_refl _

/-- Between two instructions only `pc` moves. -/
theorem seqRun_eq_of_instret_le {s : Arch} {n k : ℕ}
    (h : (seqRun dec s (n + k)).instret ≤ (seqRun dec s n).instret) :
    (seqRun dec s (n + k)).regs = (seqRun dec s n).regs ∧
      (seqRun dec s (n + k)).mem = (seqRun dec s n).mem := by
  induction k with
  | zero => exact ⟨rfl, rfl⟩
  | succ k ih =>
    have hstep : (seqRun dec s (n + k)).instret ≤ (seqRun dec s (n + k + 1)).instret :=
      seqRun_instret_le s (n + k) 1
    obtain ⟨hregs, hmem⟩ := ih (Nat.le_trans hstep h)
    have hbefore : (seqRun dec s n).instret ≤ (seqRun dec s (n + k)).instret :=
      seqRun_instret_le s n k
    rw [← Nat.add_assoc] at h ⊢
    rw [seqRun, seqStep] at h ⊢
    split at h
    · rename_i hrun
      rw [if_pos hrun, Arch.execWord]
      rw [Arch.execWord] at h
      cases hd : dec (seqRun dec s (n + k)).fetch with
      | none => exact ⟨hregs, hmem⟩
      | some i =>
        simp only [hd, Arch.exec_instret] at h
        omega
    · rename_i hrun
      rw [if_neg hrun]
      exact ⟨hregs, hmem⟩

/-- **Registers and memory** are determined by the number of instructions executed. -/
theorem seqRun_eq_of_instret {s : Arch} {n k : ℕ}
    (h : (seqRun dec s n).instret = (seqRun dec s k).instret) :
    (seqRun dec s n).regs = (seqRun dec s k).regs ∧ (seqRun dec s n).mem = (seqRun dec s k).mem := by
  rcases Nat.le_total k n with hle | hle
  · obtain ⟨j, rfl⟩ := Nat.exists_eq_add_of_le hle
    exact seqRun_eq_of_instret_le (Nat.le_of_eq h)
  · obtain ⟨j, rfl⟩ := Nat.exists_eq_add_of_le hle
    obtain ⟨hregs, hmem⟩ := seqRun_eq_of_instret_le (Nat.le_of_eq h.symm)
    exact ⟨hregs.symm, hmem.symm⟩

@[simp] theorem seqRun_mem_length (s : Arch) (n : ℕ) :
    (seqRun dec s n).mem.length = s.mem.length := by
  induction n with
  | zero => rfl
  | succ n ih =>
    rw [seqRun, seqStep]
    split <;> simp [ih]

end RvPipeline.Isa
