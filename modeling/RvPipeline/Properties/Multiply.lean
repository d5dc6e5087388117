import Mathlib.Data.BitVec
import Mathlib.Tactic.Ring
import RvPipeline.Model.AsmFiles
import RvPipeline.Properties.ProgramLogic

/-!
# The multiplication programs

`program1.s` and `program3.s` multiply with a routine that shifts and adds. The routine
is verified once, wherever it stands in the code; the programs call it.

Results:

* `multiply_leads`: the routine multiplies any two words.
* `program1_multiplies`, `program3_totals`: the programs compute what they should, on
  every pipeline.
-/

namespace RvPipeline

open Isa

/-! ## One bit at a time -/

theorem eq_halves (y : Word) : y = (y >>> 1) + (y >>> 1) + (y &&& 1#32) := by
  apply BitVec.eq_of_toNat_eq
  have hbit : (y &&& 1#32).toNat = y.toNat % 2 := by
    simp [BitVec.toNat_and, Nat.and_one_is_mod]
  rw [BitVec.toNat_add, BitVec.toNat_add, hbit, BitVec.toNat_ushiftRight,
    Nat.shiftRight_eq_div_pow]
  omega

theorem shiftLeft_one (x : Word) : x <<< 1 = x + x := by
  apply BitVec.eq_of_toNat_eq
  rw [BitVec.toNat_shiftLeft, BitVec.toNat_add, Nat.shiftLeft_eq]
  omega

theorem bit_cases (y : Word) : y &&& 1#32 = 0#32 ∨ y &&& 1#32 = 1#32 := by
  have hbit : (y &&& 1#32).toNat = y.toNat % 2 := by
    simp [BitVec.toNat_and, Nat.and_one_is_mod]
  rcases Nat.mod_two_eq_zero_or_one y.toNat with h | h
  · exact .inl (BitVec.eq_of_toNat_eq (hbit.trans h))
  · exact .inr (BitVec.eq_of_toNat_eq (hbit.trans h))

/-- A low bit 0 adds nothing. -/
theorem mul_of_even {x y : Word} (h : y &&& 1#32 = 0#32) : x <<< 1 * y >>> 1 = x * y := by
  have hy : y = y >>> 1 + y >>> 1 + 0 := (eq_halves y).trans (congrArg _ h)
  rw [shiftLeft_one]
  conv_rhs => rw [hy]
  ring

/-- A low bit 1 adds `x`. -/
theorem mul_of_odd {x y : Word} (h : y &&& 1#32 = 1#32) : x + x <<< 1 * y >>> 1 = x * y := by
  have hy : y = y >>> 1 + y >>> 1 + 1 := (eq_halves y).trans (congrArg _ h)
  rw [shiftLeft_one]
  conv_rhs => rw [hy]
  ring

/-! ## The routine -/

section

variable {dec : Word → Option Instr} {c : Code} {p : ℕ} {s₀ s : Arch}

/-- The routine stands at the `p`-th instruction. -/
def HasMultiply (c : Code) (p : ℕ) : Prop := ∀ k < 10, c.instrs[p + k]? = multiplyInstrs[k]?

/-- Only the temporary registers of the routine differ. -/
structure SameButTemps (s₀ s : Arch) : Prop where
  regs : ∀ r, r ≠ 5#5 → r ≠ 6#5 → r ≠ 7#5 → r ≠ 28#5 → s.reg r = s₀.reg r
  memory : s.mem = s₀.mem

/-- At `multiply_loop`. -/
structure Multiplying (c : Code) (p : ℕ) (s₀ : Arch) (product : Word) (s : Arch) : Prop where
  loop : c.At (p + 3) s
  sum : s.reg 7#5 + s.reg 6#5 * s.reg 5#5 = product
  same : SameButTemps s₀ s

/-- At `end_multiply`. -/
structure Multiplied (c : Code) (p : ℕ) (s₀ : Arch) (product : Word) (s : Arch) : Prop where
  stop : c.At (p + 10) s
  result : s.reg 7#5 = product
  same : SameButTemps s₀ s

/-- From `skip_add` back to the loop. -/
theorem multiply_skip_add {product : Word} (hc : HasMultiply c p) (hat : c.At (p + 7) s)
    (hsum : s.reg 7#5 + s.reg 6#5 <<< 1 * s.reg 5#5 >>> 1 = product) (hsame : SameButTemps s₀ s) :
    c.Leads dec (fun s' => s'.reg 5#5 = s.reg 5#5 >>> 1 ∧ Multiplying c p s₀ product s') s := by
  obtain ⟨hregs, hmem⟩ := hsame
  refine .next hat (hc 7 (by decide)) rfl fun hat => ?_
  refine .next hat (hc 8 (by decide)) rfl fun hat => ?_
  refine .jal (j := p + 3) hat (hc 9 (by decide)) ?_ fun hat => ?_
  · rw [show 4 * (p + 9) = 4 * (p + 3) + 24 by omega, BitVec.ofNat_add _ 24, BitVec.add_assoc]
    exact BitVec.add_zero _
  refine .done ⟨?_, hat, ?_, ?_, ?_⟩
  · simp
  · simpa using hsum
  · intro r h5 h6 h7 h28
    simpa [h5.symm, h6.symm] using hregs r h5 h6 h7 h28
  · simpa using hmem

/-- **One round of the loop** ends it, or halves the multiplier. -/
theorem multiply_round {product : Word} (hc : HasMultiply c p)
    (h : Multiplying c p s₀ product s) :
    c.Leads dec (fun s' => Multiplied c p s₀ product s' ∨
      (s'.reg 5#5).toNat < (s.reg 5#5).toNat ∧ Multiplying c p s₀ product s') s := by
  obtain ⟨hat, hsum, hregs, hmem⟩ := h
  refine .branch (j := p + 10) hat (hc 3 (by decide)) ?_ (fun htaken hat => ?_) fun hnot hat => ?_
  · rw [show 4 * (p + 10) = 4 * (p + 3) + 28 by omega, BitVec.ofNat_add _ 28]
    rfl
  · have hzero : s.reg 5#5 = 0#32 := by simpa using htaken
    refine .done (.inl ⟨hat, ?_, ?_, ?_⟩)
    · simpa [hzero] using hsum
    · simpa using hregs
    · simpa using hmem
  have hne : s.reg 5#5 ≠ 0#32 := by simpa using hnot
  have hhalf : (s.reg 5#5 >>> 1).toNat < (s.reg 5#5).toNat := by
    have hpos : (s.reg 5#5).toNat ≠ 0 := fun h => hne (BitVec.eq_of_toNat_eq h)
    rw [BitVec.toNat_ushiftRight, Nat.shiftRight_eq_div_pow]
    omega
  refine .next hat (hc 4 (by decide)) rfl fun hat => ?_
  refine .branch (j := p + 7) hat (hc 5 (by decide)) ?_ (fun htaken hat => ?_) fun hnot hat => ?_
  · rw [show 4 * (p + 7) = 4 * (p + 5) + 8 by omega, BitVec.ofNat_add _ 8]
    rfl
  · -- the low bit is 0
    have hbit : s.reg 5#5 &&& 1#32 = 0#32 := by simpa using htaken
    refine (multiply_skip_add hc hat ?_ ⟨?_, ?_⟩).mono
      fun s' hs' => .inr ⟨?_, hs'.2⟩
    · simpa [mul_of_even hbit] using hsum
    · intro r h5 h6 h7 h28
      simpa [h28.symm] using hregs r h5 h6 h7 h28
    · simpa using hmem
    · rw [hs'.1]
      simpa using hhalf
  · -- the low bit is 1
    have hbit : s.reg 5#5 &&& 1#32 = 1#32 :=
      (bit_cases _).resolve_left (by simpa using hnot)
    refine .next hat (hc 6 (by decide)) rfl fun hat => ?_
    refine (multiply_skip_add hc hat ?_ ⟨?_, ?_⟩).mono
      fun s' hs' => .inr ⟨?_, hs'.2⟩
    · simpa [BitVec.add_assoc, mul_of_odd hbit] using hsum
    · intro r h5 h6 h7 h28
      simpa [h7.symm, h28.symm] using hregs r h5 h6 h7 h28
    · simpa using hmem
    · rw [hs'.1]
      simpa using hhalf

/-- **The routine multiplies** the two words on the stack. -/
theorem multiply_leads {x y : Word} (hc : HasMultiply c p) (hat : c.At p s)
    (hfits : (s.reg 2#5).toNat + 8 ≤ s.mem.length) (hw : (s.reg 2#5).toNat + 8 ≤ 2 ^ 32)
    (hy : s.mem.word (s.reg 2#5) = y) (hx : s.mem.word (s.reg 2#5 + 4#32) = x) :
    c.Leads dec (Multiplied c p s (x * y)) s := by
  refine .load hat (hc 0 (by decide)) ?_ fun hat => ?_
  · simp
    omega
  refine .load hat (hc 1 (by decide)) ?_ fun hat => ?_
  · simp
    omega
  refine .next hat (hc 2 (by decide)) rfl fun hat => ?_
  have hround : ∀ n s', (n = (s'.reg 5#5).toNat ∧ Multiplying c p s (x * y) s') →
      c.Leads dec (fun s' => Multiplied c p s (x * y) s' ∨
        ∃ j < n, j = (s'.reg 5#5).toNat ∧ Multiplying c p s (x * y) s') s' := by
    rintro _ s' ⟨rfl, hs'⟩
    refine (multiply_round hc hs').mono fun s'' hs'' => hs''.imp_right fun hnext => ?_
    exact ⟨_, hnext.1, rfl, hnext.2⟩
  refine Code.Leads.loop hround _ ⟨rfl, hat, ?_, ?_, ?_⟩
  · simp [hx, hy]
  · intro r h5 h6 h7 _
    simp [h5.symm, h6.symm, h7.symm]
  · simp

/-! ## The stack -/

/-- Only the two words on the stack differ. -/
abbrev SameButStack (mem mem' : Mem) : Prop := Mem.SameOutside 0x2F8 8 mem mem'

/-- The arguments of `multiply` are on the stack. -/
structure Pushed (mem : Mem) (x y : Word) (mem' : Mem) : Prop where
  multiplicand : mem'.word 0x2FC#32 = x
  multiplier : mem'.word 0x2F8#32 = y
  same : SameButStack mem mem'

theorem SameButStack.push {mem mem' : Mem} (h : SameButStack mem mem') (hfits : 0x300 ≤ mem.length)
    (x y : Word) : Pushed mem x y ((mem'.setWord 0x2FC#32 x).setWord 0x2F8#32 y) := by
  have hlength := h.length
  have hsame := (h.setWord (c := 0x2FC#32) (by decide) (by decide) (by decide) x).setWord
    (c := 0x2F8#32) (by decide) (by decide) (by decide) y
  refine ⟨?_, ?_, hsame⟩
  · rw [Mem.word_setWord_of_disjoint (by decide) (by decide) (by decide)]
    exact Mem.word_setWord (a := 0x2FC#32) (show 0x2FC + 4 ≤ mem'.length by omega) (by decide) x
  · refine Mem.word_setWord (show 0x2F8 + 4 ≤ _ from ?_) (by decide) y
    rw [Mem.length_setWord]
    omega

/-- A result at `0x40`. -/
structure StoredAt40 (mem : Mem) (result : Word) (mem' : Mem) : Prop where
  result : mem'.word 0x40#32 = result
  rest : ∀ b, ¬ Touches 0x2F8#32 8 b → ¬ Touches 0x40#32 4 b → mem'.byte b = mem.byte b

theorem SameButStack.store {mem mem' : Mem} (h : SameButStack mem mem') (hfits : 0x300 ≤ mem.length)
    (v : Word) : StoredAt40 mem v (mem'.setWord 0x40#32 v) := by
  have hlength := h.length
  refine ⟨Mem.word_setWord (a := 0x40#32) (show 0x40 + 4 ≤ mem'.length by omega) (by decide) v,
    fun b h8 h4 => ?_⟩
  rw [Mem.byte_setWord_of_not_touches h4]
  rw [touches_iff (by decide)] at h8
  change ¬ (0x2F8 ≤ b.toNat ∧ b.toNat < 0x300) at h8
  exact h.rest b (by omega)

/-! ## `program1.s` -/

variable {x y : BitVec 12}

theorem hasMultiply_program1 (x y : BitVec 12) : HasMultiply (program1Code x y) 11 := by
  intro k hk
  interval_cases k <;> rfl

theorem program1_not_covered {a : Word} (ha : 0x5C ≤ a.toNat) (hw : a.toNat + 4 ≤ 2 ^ 32)
    (b : Word) (hb : Touches a 4 b) : ¬ (program1Code x y).Covers b :=
  Code.not_covers (show 0 + 4 * 23 ≤ 2 ^ 32 by decide) hw (.inl ha) hb

/-- The code in front of the call. -/
theorem program1_start (hat : (program1Code x y).At 0 s) (hfits : 0x300 ≤ s.mem.length) :
    (program1Code x y).Leads dec (fun s' => (program1Code x y).At 11 s' ∧
      s'.reg 1#5 = 0x1C#32 ∧ s'.reg 2#5 = 0x2F8#32 ∧
      Pushed s.mem (x.signExtend 32) (y.signExtend 32) s'.mem) s := by
  refine .next hat rfl rfl fun hat => ?_
  refine .next hat rfl rfl fun hat => ?_
  refine .next hat rfl rfl fun hat => ?_
  refine .store hat rfl ?_ ?_ fun hat => ?_
  · simp
    omega
  · simpa using program1_not_covered (by decide) (by decide)
  refine .next hat rfl rfl fun hat => ?_
  refine .store hat rfl ?_ ?_ fun hat => ?_
  · simp
    omega
  · simpa using program1_not_covered (by decide) (by decide)
  have hlink := hat.link 1#5 (jumpTo 6 11) (by decide)
  refine .jal (j := 11) hat rfl rfl fun hat => ?_
  refine .done ⟨hat, hlink, ?_, ?_⟩
  · simp
  · simpa using SameButStack.push (.refl _ _ s.mem) hfits (x.signExtend 32) (y.signExtend 32)

/-- What the program leaves: the product in `a0` and at `0x40`. -/
structure Program1Result (mem : Mem) (product : Word) (s : Arch) : Prop where
  a0 : s.reg 10#5 = product
  memory : StoredAt40 mem product s.mem

/-- The last two instructions: the store overwrites an instruction of `multiply`. -/
theorem program1_end {mem : Mem} {product : Word} (hat : (program1Code x y).At 9 s)
    (hx10 : s.reg 10#5 = product) (hx29 : s.reg 29#5 = 0x40#32) (hfits : 0x300 ≤ mem.length)
    (hmem : SameButStack mem s.mem) :
    (program1Code x y).Leads dec
      ((program1Code x y).Verified dec (Program1Result mem product)) s := by
  have hlength := hmem.length
  have hat : ((program1Code x y).slice 9 2).At 0 s := .slice hat
  refine .slice (i := 9) (n := 2) (.store hat rfl ?_ ?_ fun hat => ?_)
  · simp [hx29]
    omega
  · have hclear : ∀ b, Touches 0x40#32 4 b → ¬ ((program1Code x y).slice 9 2).Covers b :=
      fun b => Code.not_covers (show 0x24 + 4 * 2 ≤ 2 ^ 32 by decide) (by decide)
        (.inl (show 0x24 + 4 * 2 ≤ 0x40 by decide))
    simpa [hx29] using hclear
  refine .halt hat rfl ⟨?_, ?_⟩
  · simpa using hx10
  · simpa [hx29, hx10] using SameButStack.store hmem hfits product

/-- The code behind the call, up to the store of the result. -/
theorem program1_return {s₁ : Arch} {product : Word}
    (h : Multiplied (program1Code x y) 11 s₁ product s) (hra : s₁.reg 1#5 = 0x1C#32) :
    (program1Code x y).Leads dec (fun s' => (program1Code x y).At 9 s' ∧
      s'.reg 10#5 = product ∧ s'.reg 29#5 = 0x40#32 ∧ s'.mem = s₁.mem) s := by
  obtain ⟨hat, hresult, hregs, hmem⟩ := h
  have hra' : s.reg 1#5 = 0x1C#32 :=
    (hregs 1#5 (by decide) (by decide) (by decide) (by decide)).trans hra
  refine .next hat rfl rfl fun hat => ?_
  refine .jalr (j := 7) hat rfl ?_ fun hat => ?_
  · simp [hra']
    rfl
  refine .next hat rfl rfl fun hat => ?_
  refine .next hat rfl rfl fun hat => ?_
  refine .done ⟨hat, ?_, ?_, ?_⟩
  · simpa using hresult
  · simp
  · simpa using hmem

/-- **The program** leads to a halt with the product. -/
theorem program1_leads (hat : (program1Code x y).At 0 s) (hfits : 0x300 ≤ s.mem.length) :
    (program1Code x y).Leads dec ((program1Code x y).Verified dec
      (Program1Result s.mem (x.signExtend 32 * y.signExtend 32))) s := by
  refine (program1_start hat hfits).bind fun s₁ hs₁ => ?_
  obtain ⟨hat₁, hra, hsp, hpushed⟩ := hs₁
  have hlength := hpushed.same.length
  have hx : s₁.mem.word (s₁.reg 2#5 + 4#32) = x.signExtend 32 := by
    rw [hsp]
    exact hpushed.multiplicand
  have hy : s₁.mem.word (s₁.reg 2#5) = y.signExtend 32 := by
    rw [hsp]
    exact hpushed.multiplier
  have hstack : (s₁.reg 2#5).toNat + 8 = 0x300 := by
    rw [hsp]
    rfl
  refine (multiply_leads (hasMultiply_program1 x y) hat₁ (by omega) (by omega) hy hx).bind
    fun s₂ hs₂ => ?_
  refine (program1_return hs₂ hra).bind fun s₃ hs₃ => ?_
  obtain ⟨hat₃, hx10, hx29, hmem⟩ := hs₃
  refine program1_end hat₃ hx10 hx29 hfits ?_
  rw [hmem]
  exact hpushed.same

/-! ## `program3.s` -/

variable {mem : Mem} {year month day : BitVec 12}

theorem hasMultiply_program3 (year month day : BitVec 12) :
    HasMultiply (program3Code year month day) 27 := by
  intro k hk
  interval_cases k <;> rfl

theorem program3_not_covered {a : Word} (ha : 0x9C ≤ a.toNat) (hw : a.toNat + 4 ≤ 2 ^ 32)
    (b : Word) (hb : Touches a 4 b) : ¬ (program3Code year month day).Covers b :=
  Code.not_covers (show 0 + 4 * 39 ≤ 2 ^ 32 by decide) hw (.inl ha) hb

/-- **A call of `multiply`** puts the product in the place of the multiplicand. -/
theorem program3_call {j : ℕ} {x₁ x₂ : Word} (hat : (program3Code year month day).At 27 s)
    (hsp : s.reg 2#5 = 0x2F8#32) (hra : s.reg 1#5 = (program3Code year month day).addr j)
    (hj : (program3Code year month day).addr j &&& ~~~1#32 = (program3Code year month day).addr j)
    (hfits : 0x300 ≤ mem.length) (hmem : Pushed mem x₁ x₂ s.mem) :
    (program3Code year month day).Leads dec (fun s' => (program3Code year month day).At j s' ∧
      s'.reg 2#5 = 0x2F8#32 ∧ s'.reg 18#5 = s.reg 18#5 ∧
      s'.mem.word 0x2FC#32 = x₁ * x₂ ∧ SameButStack mem s'.mem) s := by
  have hlength := hmem.same.length
  have hx : s.mem.word (s.reg 2#5 + 4#32) = x₁ := by
    rw [hsp]
    exact hmem.multiplicand
  have hy : s.mem.word (s.reg 2#5) = x₂ := by
    rw [hsp]
    exact hmem.multiplier
  have hstack : (s.reg 2#5).toNat + 8 = 0x300 := by
    rw [hsp]
    rfl
  refine (multiply_leads (hasMultiply_program3 year month day) hat (by omega) (by omega) hy hx).bind
    fun s₁ hs₁ => ?_
  obtain ⟨hat, hresult, hregs, hsame⟩ := hs₁
  have hkeep : ∀ r, r = 1#5 ∨ r = 2#5 ∨ r = 18#5 → s₁.reg r = s.reg r := by
    rintro r (rfl | rfl | rfl)
    all_goals exact hregs _ (by decide) (by decide) (by decide) (by decide)
  have hra₁ := (hkeep 1#5 (.inl rfl)).trans hra
  have hsp₁ := (hkeep 2#5 (.inr (.inl rfl))).trans hsp
  refine .store hat rfl ?_ ?_ fun hat => ?_
  · simp [hsp₁, hsame]
    omega
  · simpa [hsp₁] using program3_not_covered (by decide) (by decide)
  refine .jalr (j := j) hat rfl ?_ fun hat => ?_
  · simpa [hra₁] using hj
  refine .done ⟨hat, ?_, ?_, ?_, ?_⟩
  · simpa using hsp₁
  · simpa using hkeep 18#5 (.inr (.inr rfl))
  · have hword : (s.mem.setWord 0x2FC#32 (x₁ * x₂)).word 0x2FC#32 = x₁ * x₂ :=
      Mem.word_setWord (a := 0x2FC#32) (show 0x2FC + 4 ≤ s.mem.length by omega) (by decide) _
    simpa [hsp₁, hresult, hsame] using hword
  · simpa [hsp₁, hresult, hsame] using
      hmem.same.setWord (c := 0x2FC#32) (by decide) (by decide) (by decide) (x₁ * x₂)

/-- The code in front of the first call. -/
theorem program3_start (hat : (program3Code year month day).At 0 s) (hfits : 0x300 ≤ s.mem.length) :
    (program3Code year month day).Leads dec (fun s' => (program3Code year month day).At 27 s' ∧
      s'.reg 1#5 = 0x24#32 ∧ s'.reg 2#5 = 0x2F8#32 ∧
      Pushed s.mem (year.signExtend 32 - 2000) 365 s'.mem) s := by
  refine .next hat rfl rfl fun hat => ?_
  refine .next hat rfl rfl fun hat => ?_
  refine .next hat rfl rfl fun hat => ?_
  refine .next hat rfl rfl fun hat => ?_
  refine .next hat rfl rfl fun hat => ?_
  refine .store hat rfl ?_ ?_ fun hat => ?_
  · simp
    omega
  · simpa using program3_not_covered (by decide) (by decide)
  refine .next hat rfl rfl fun hat => ?_
  refine .store hat rfl ?_ ?_ fun hat => ?_
  · simp
    omega
  · simpa using program3_not_covered (by decide) (by decide)
  have hlink := hat.link 1#5 (jumpTo 8 27) (by decide)
  refine .jal (j := 27) hat rfl rfl fun hat => ?_
  refine .done ⟨hat, hlink, ?_, ?_⟩
  · simp
  · simpa using SameButStack.push (.refl _ _ s.mem) hfits (year.signExtend 32 - 2000) 365

/-- The code between the calls. -/
theorem program3_middle {x : Word} (hat : (program3Code year month day).At 9 s)
    (hsp : s.reg 2#5 = 0x2F8#32) (hx : s.mem.word 0x2FC#32 = x) (hfits : 0x300 ≤ mem.length)
    (hmem : SameButStack mem s.mem) :
    (program3Code year month day).Leads dec (fun s' => (program3Code year month day).At 27 s' ∧
      s'.reg 1#5 = 0x4C#32 ∧ s'.reg 2#5 = 0x2F8#32 ∧ s'.reg 18#5 = x ∧
      Pushed mem (month.signExtend 32 - 1) 30 s'.mem) s := by
  have hlength := hmem.length
  refine .load hat rfl ?_ fun hat => ?_
  · simp [hsp]
    omega
  refine .next hat rfl rfl fun hat => ?_
  refine .next hat rfl rfl fun hat => ?_
  refine .next hat rfl rfl fun hat => ?_
  refine .next hat rfl rfl fun hat => ?_
  refine .next hat rfl rfl fun hat => ?_
  refine .store hat rfl ?_ ?_ fun hat => ?_
  · simp [hsp]
    omega
  · simpa [hsp] using program3_not_covered (by decide) (by decide)
  refine .next hat rfl rfl fun hat => ?_
  refine .store hat rfl ?_ ?_ fun hat => ?_
  · simp [hsp]
    omega
  · simpa [hsp] using program3_not_covered (by decide) (by decide)
  have hlink := hat.link 1#5 (jumpTo 18 27) (by decide)
  refine .jal (j := 27) hat rfl rfl fun hat => ?_
  refine .done ⟨hat, hlink, ?_, ?_, ?_⟩
  · simp [hsp]
  · simpa [hsp] using hx
  · simpa [hsp] using SameButStack.push hmem hfits (month.signExtend 32 - 1) 30

/-- The code behind the second call. -/
theorem program3_sum {x₁ x₂ : Word} (hat : (program3Code year month day).At 19 s)
    (hsp : s.reg 2#5 = 0x2F8#32) (hx18 : s.reg 18#5 = x₁) (hx : s.mem.word 0x2FC#32 = x₂)
    (hfits : 0x300 ≤ s.mem.length) :
    (program3Code year month day).Leads dec (fun s' => (program3Code year month day).At 25 s' ∧
      s'.reg 5#5 = day.signExtend 32 + x₂ + x₁ ∧ s'.reg 29#5 = 0x40#32 ∧ s'.mem = s.mem) s := by
  refine .load hat rfl ?_ fun hat => ?_
  · simp [hsp]
    omega
  refine .next hat rfl rfl fun hat => ?_
  refine .next hat rfl rfl fun hat => ?_
  refine .next hat rfl rfl fun hat => ?_
  refine .next hat rfl rfl fun hat => ?_
  refine .next hat rfl rfl fun hat => ?_
  refine .done ⟨hat, ?_, ?_, ?_⟩
  · simp [hsp, hx, hx18]
  · simp
  · simp

/-- The last two instructions: the store overwrites an instruction between the calls. -/
theorem program3_end {total : Word} (hat : (program3Code year month day).At 25 s)
    (hx5 : s.reg 5#5 = total) (hx29 : s.reg 29#5 = 0x40#32) (hfits : 0x300 ≤ mem.length)
    (hmem : SameButStack mem s.mem) :
    (program3Code year month day).Leads dec ((program3Code year month day).Verified dec
      (fun s' => StoredAt40 mem total s'.mem)) s := by
  have hlength := hmem.length
  have hat : ((program3Code year month day).slice 25 2).At 0 s := .slice hat
  refine .slice (i := 25) (n := 2) (.store hat rfl ?_ ?_ fun hat => ?_)
  · simp [hx29]
    omega
  · have hclear : ∀ b, Touches 0x40#32 4 b →
        ¬ ((program3Code year month day).slice 25 2).Covers b :=
      fun b => Code.not_covers (show 0x64 + 4 * 2 ≤ 2 ^ 32 by decide) (by decide)
        (.inr (show 0x40 + 4 ≤ 0x64 by decide))
    simpa [hx29] using hclear
  refine .halt hat rfl ?_
  simpa [hx29, hx5] using SameButStack.store hmem hfits total

/-- **The program** leads to a halt with the sum of the three terms. -/
theorem program3_leads (hat : (program3Code year month day).At 0 s)
    (hfits : 0x300 ≤ s.mem.length) :
    (program3Code year month day).Leads dec ((program3Code year month day).Verified dec
      (fun s' => StoredAt40 s.mem (day.signExtend 32 + (month.signExtend 32 - 1) * 30 +
        (year.signExtend 32 - 2000) * 365) s'.mem)) s := by
  refine (program3_start hat hfits).bind fun s₁ hs₁ => ?_
  obtain ⟨hat₁, hra₁, hsp₁, hmem₁⟩ := hs₁
  have h9 : 0x24#32 &&& ~~~1#32 = 0x24#32 := by decide
  refine (program3_call (j := 9) hat₁ hsp₁ hra₁ h9 hfits hmem₁).bind fun s₂ hs₂ => ?_
  obtain ⟨hat₂, hsp₂, -, hx₂, hmem₂⟩ := hs₂
  refine (program3_middle hat₂ hsp₂ hx₂ hfits hmem₂).bind fun s₃ hs₃ => ?_
  obtain ⟨hat₃, hra₃, hsp₃, hx18, hmem₃⟩ := hs₃
  have h19 : 0x4C#32 &&& ~~~1#32 = 0x4C#32 := by decide
  refine (program3_call (j := 19) hat₃ hsp₃ hra₃ h19 hfits hmem₃).bind fun s₄ hs₄ => ?_
  obtain ⟨hat₄, hsp₄, hx18', hx₄, hmem₄⟩ := hs₄
  have hlength := hmem₄.length
  refine (program3_sum hat₄ hsp₄ (hx18'.trans hx18) hx₄ (by omega)).bind fun s₅ hs₅ => ?_
  obtain ⟨hat₅, hx5, hx29, hmem₅⟩ := hs₅
  exact program3_end hat₅ hx5 hx29 hfits (hmem₅ ▸ hmem₄)

end

/-- **`program1.s` multiplies**: with any two operands, and whatever the rest of memory and the
    registers hold, the pipeline halts, without a throw, with the product in `a0` and at
    `0x40`. -/
theorem program1_multiplies {m₀ : Machine} {x y : BitVec 12} (h₀ : Initial m₀)
    (hpc : m₀.cpu.pc = 0#32) (hcode : Assembled (program1Code x y) m₀.cpu.memory)
    (hfits : 0x300 ≤ m₀.cpu.memory.length) :
    RunsTo m₀ (Program1Result m₀.cpu.memory (x.signExtend 32 * y.signExtend 32)) := by
  have hat : (program1Code x y).At 0 (archOf m₀.cpu) := ⟨h₀.halted, hpc⟩
  have hin := Code.In.of_assembled hcode (show 0 + 4 * 23 ≤ 2 ^ 32 by decide)
  exact ((program1_leads hat hfits).verified hin).runsTo h₀

/-- `program1.s` as it is. -/
def program1 : Machine :=
  .ofProgram ((program1Code 6 7).instrs.map Instr.encode ++ List.replicate 169 0)

theorem program1_fortyTwo : ∃ t m, HaltsIn program1 t m ∧ m.cpu.memory.word 0x40#32 = 42#32 := by
  have hinit : Initial program1 := ⟨rfl, rfl⟩
  have hcode : Assembled (program1Code 6 7) program1.cpu.memory :=
    ⟨by decide +kernel, by decide +kernel⟩
  have hruns := program1_multiplies hinit rfl hcode (by decide +kernel)
  obtain ⟨t, m, hm⟩ := hruns.halts
  exact ⟨t, m, hm, (hruns.ends t m hm).memory.result⟩

/-- **`program3.s` computes the days elapsed**: with any date, and whatever the rest of memory
    and the registers hold, the pipeline halts, without a throw, with the total at `0x40`. -/
theorem program3_totals {m₀ : Machine} {year month day : BitVec 12} (h₀ : Initial m₀)
    (hpc : m₀.cpu.pc = 0#32) (hcode : Assembled (program3Code year month day) m₀.cpu.memory)
    (hfits : 0x300 ≤ m₀.cpu.memory.length) :
    RunsTo m₀ fun s => StoredAt40 m₀.cpu.memory (day.signExtend 32 +
      (month.signExtend 32 - 1) * 30 + (year.signExtend 32 - 2000) * 365) s.mem := by
  have hat : (program3Code year month day).At 0 (archOf m₀.cpu) := ⟨h₀.halted, hpc⟩
  have hin := Code.In.of_assembled hcode (show 0 + 4 * 39 ≤ 2 ^ 32 by decide)
  exact ((program3_leads hat hfits).verified hin).runsTo h₀

/-- `program3.s` as it is. -/
def program3 : Machine :=
  .ofProgram ((program3Code 2025 8 22).instrs.map Instr.encode ++ List.replicate 153 0)

theorem program3_days : ∃ t m, HaltsIn program3 t m ∧ m.cpu.memory.word 0x40#32 = 9357#32 := by
  have hinit : Initial program3 := ⟨rfl, rfl⟩
  have hcode : Assembled (program3Code 2025 8 22) program3.cpu.memory :=
    ⟨by decide +kernel, by decide +kernel⟩
  have hruns := program3_totals hinit rfl hcode (by decide +kernel)
  obtain ⟨t, m, hm⟩ := hruns.halts
  exact ⟨t, m, hm, (hruns.ends t m hm).result⟩

end RvPipeline
