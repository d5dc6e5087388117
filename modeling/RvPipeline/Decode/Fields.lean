import RvPipeline.Isa.Format
import RvPipeline.Isa.Arch
import RvPipeline.Model.Stages
import Mathlib.Tactic.IntervalCases

/-!
# The bit fields are those of the ISA

`bits` shifts and masks; the operand fields of the base encoding are slices.
This file identifies the two, and the source's `sign_extend` with the sign
extension of the slice.

* `extractRd_eq`, `extractRs1_eq`, `extractRs2_eq`: the register fields.
* `decodeIType_imm`, `decodeSType_imm`, `decodeBType_imm`, `decodeUType_imm`,
  `decodeJType_imm`: the immediates of the five formats that have one.
-/

namespace RvPipeline

open Isa

/-! ## Masks -/

/-- The mask of `bits` has `n` ones at its low end. -/
theorem getLsbD_mask {n i : ℕ} (hn : n < 32) :
    ((1#32 <<< n) - 1).getLsbD i = decide (i < n) := by
  have hpow : 2 ^ n < 2 ^ 32 := Nat.pow_lt_pow_right (by omega) hn
  have h : ((1#32 <<< n) - 1).toNat = 2 ^ n - 1 := by
    have : 1 ≤ 2 ^ n := Nat.one_le_two_pow
    simp [BitVec.toNat_sub, BitVec.toNat_shiftLeft, Nat.shiftLeft_eq]
    omega
  rw [BitVec.getLsbD, h, Nat.testBit_two_pow_sub_one]

/-- `bits w hi lo` has the bits `lo` to `hi` of the word, and zeros above. -/
theorem getLsbD_bits {w : Word} {hi lo i : ℕ} (h : hi - lo + 1 < 32) :
    (bits w hi lo).getLsbD i = (decide (i < hi - lo + 1) && w.getLsbD (lo + i)) := by
  simp only [bits, BitVec.getLsbD_and, BitVec.getLsbD_ushiftRight, getLsbD_mask h]
  rw [Bool.and_comm]

theorem getElem_bits {w : Word} {hi lo i : ℕ} (h : hi - lo + 1 < 32) (hi' : i < 32) :
    (bits w hi lo)[i] = (decide (i < hi - lo + 1) && w.getLsbD (lo + i)) := by
  rw [← BitVec.getLsbD_eq_getElem, getLsbD_bits h]

/-- A field narrower than a word is a slice. -/
theorem setWidth_bits {w : Word} {hi lo n : ℕ} (h : hi - lo + 1 < 32) (hn : n = hi - lo + 1) :
    (bits w hi lo).setWidth n = w.extractLsb' lo n := by
  apply BitVec.eq_of_getLsbD_eq
  intro i hi
  simp only [BitVec.getLsbD_setWidth, getLsbD_bits h, BitVec.getLsbD_extractLsb', ← hn]
  simp [hi]

/-- The opcode and the function fields are slices; so are the registers below. -/
theorem extractOpcode_eq (w : Word) : extractOpcode w = w.extractLsb' 0 7 :=
  setWidth_bits (by omega) rfl

theorem extractRd_eq (w : Word) : extractRd w = rdOf w := setWidth_bits (by omega) rfl

theorem extractFunct3_eq (w : Word) : extractFunct3 w = w.extractLsb' 12 3 :=
  setWidth_bits (by omega) rfl

theorem extractRs1_eq (w : Word) : extractRs1 w = rs1Of w := setWidth_bits (by omega) rfl

theorem extractRs2_eq (w : Word) : extractRs2 w = rs2Of w := setWidth_bits (by omega) rfl

theorem extractFunct7_eq (w : Word) : extractFunct7 w = w.extractLsb' 25 7 :=
  setWidth_bits (by omega) rfl

/-! ## Sign extension -/

/-- The test of `sign_extend` looks at one bit. -/
theorem and_signBit_eq_zero {v : Word} {k : ℕ} (hk : k < 32) :
    v &&& (1#32 <<< k) = 0 ↔ v.getLsbD k = false := by
  constructor
  · intro h
    have := congrArg (fun x => BitVec.getLsbD x k) h
    simpa [hk] using this
  · intro h
    apply BitVec.eq_of_getLsbD_eq
    intro i hi
    by_cases hik : i = k
    · subst hik; simp [h]
    · have : i < k ∨ ¬ i < k ∧ i - k ≠ 0 := by omega
      rcases this with h1 | ⟨h1, h2⟩ <;> simp_all

/-- `sign_extend value bit_count` extends the `bit_count`-bit slice. -/
theorem signExtend_eq {v : Word} {n : ℕ} (x : BitVec n) (h0 : 0 < n) (h1 : n < 32)
    (hx : ∀ i < n, v.getLsbD i = x.getLsbD i) : signExtend v n = x.signExtend 32 := by
  have hmsb : x.msb = v.getLsbD (n - 1) := by
    rw [BitVec.msb_eq_getLsbD_last, hx _ (by omega)]
  unfold signExtend
  simp only [and_signBit_eq_zero (show n - 1 < 32 by omega), BitVec.getLsbD_and, getLsbD_mask h1]
  apply BitVec.eq_of_getLsbD_eq
  intro i hi
  rw [BitVec.getLsbD_signExtend, hmsb]
  simp only [show n - 1 < n by omega, decide_true, Bool.and_true]
  by_cases hs : v.getLsbD (n - 1) = false
  · rw [if_pos hs, BitVec.getLsbD_and, getLsbD_mask h1, hs]
    by_cases hin : i < n
    · simp only [hi, hin, hx i hin, decide_true, Bool.and_true, if_true, Bool.true_and]
    · simp only [hin, decide_false, Bool.and_false, if_false]
  · rw [if_neg hs, BitVec.getLsbD_or, BitVec.getLsbD_and, BitVec.getLsbD_not, getLsbD_mask h1]
    by_cases hin : i < n
    · simp only [hi, hin, hx i hin, decide_true, Bool.and_true, Bool.not_true, Bool.or_false,
        if_true, Bool.true_and, Bool.and_false]
    · simp only [hi, hin, decide_false, Bool.and_false, Bool.not_false, Bool.and_true,
        Bool.false_or, if_false, decide_true, Bool.true_and]
      simpa using hs

/-- The memory stage has its own copy of `sign_extend`. -/
theorem signExtendValue_eq_signExtend (v : Word) (n : ℕ) : signExtendValue v n = signExtend v n :=
  rfl

/-- A loaded byte or half is extended by its own sign. -/
theorem signExtendValue_setWidth {n : ℕ} (x : BitVec n) (h0 : 0 < n) (h1 : n < 32) :
    signExtendValue (x.setWidth 32) n = x.signExtend 32 := by
  rw [signExtendValue_eq_signExtend]
  apply signExtend_eq x h0 h1
  intro i hi
  simp [show i < 32 by omega]

/-! ## Immediates -/

/-- The immediate is one field, extended by its sign. -/
theorem decodeIType_imm (w : Word) : (decodeIType w).imm = (immI w).signExtend 32 := by
  apply signExtend_eq _ (by omega) (by omega)
  intro i hi
  simp [getElem_bits, immI, hi, show i < 32 by omega]

/-- Two fields, joined and then extended. -/
theorem decodeSType_imm (w : Word) : (decodeSType w).imm = (immS w).signExtend 32 := by
  apply signExtend_eq _ (by omega) (by omega)
  intro i hi
  rw [getLsbD_immS]
  interval_cases i <;> simp [getElem_bits]

/-- Four fields, shifted to their places; bit 0 of the offset is zero. -/
theorem decodeBType_imm (w : Word) : (decodeBType w).imm = branchOffset (immB w) := by
  apply signExtend_eq _ (by omega) (by omega)
  intro i hi
  rw [BitVec.getLsbD_append, getLsbD_immB]
  interval_cases i <;> simp [getElem_bits]

/-- The upper bits of the word; nothing is to be extended. -/
theorem decodeUType_imm (w : Word) : (decodeUType w).imm = immU w ++ 0#12 := by
  apply BitVec.eq_of_getLsbD_eq
  intro i hi
  have hmask : (0xFFFFF000#32).getLsbD i = decide (12 ≤ i) := by
    interval_cases i <;> decide
  have happ : (immU w ++ 0#12).getLsbD i = if i < 12 then false else w.getLsbD i := by
    rw [BitVec.getLsbD_append]
    split
    · simp
    · simp [immU, show 12 + (i - 12) = i by omega, show i - 12 < 20 by omega]
  rw [decodeUType]
  simp only [BitVec.getLsbD_and]
  erw [hmask, happ]
  by_cases h : i < 12
  · simp [h]
  · simp [h, show 12 ≤ i by omega]

/-- As for a branch, with the fields of a jump. -/
theorem decodeJType_imm (w : Word) : (decodeJType w).imm = jumpOffset (immJ w) := by
  apply signExtend_eq _ (by omega) (by omega)
  intro i hi
  rw [BitVec.getLsbD_append, getLsbD_immJ]
  interval_cases i <;> simp [getElem_bits]

end RvPipeline
