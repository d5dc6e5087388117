import RvPipeline.Isa.Instr
import Mathlib.Tactic.IntervalCases

/-!
# Fields and formats

The operand fields of a word and the six formats are inverse to each other:
`rType_fields`, …, `jType_fields` put a word together from its fields,
`rType_opcode`, … read the fixed fields back, and `rType_rd`, …, `jType_imm` the
operands. A format is an append of slices, and neighbouring slices of one word are
one slice.
-/

namespace RvPipeline.Isa

/-! ## Bits of the scattered immediates -/

/-- Two pieces, from the places of `rd` and `funct7`. -/
theorem getLsbD_immS (w : Word) (i : ℕ) : (immS w).getLsbD i =
    if i < 5 then (w.extractLsb' 7 5).getLsbD i else (w.extractLsb' 25 7).getLsbD (i - 5) :=
  BitVec.getLsbD_append

/-- Four pieces; bit `i` is bit `i + 1` of the offset, which is even. -/
theorem getLsbD_immB (w : Word) (i : ℕ) : (immB w).getLsbD i =
    if i < 4 then (w.extractLsb' 8 4).getLsbD i
    else if i - 4 < 6 then (w.extractLsb' 25 6).getLsbD (i - 4)
    else if i - 4 - 6 < 1 then (w.extractLsb' 7 1).getLsbD (i - 4 - 6)
    else (w.extractLsb' 31 1).getLsbD (i - 4 - 6 - 1) := by
  change @BitVec.getLsbD (1 + 1 + 6 + 4) (w.extractLsb' 31 1 ++ w.extractLsb' 7 1 ++
    w.extractLsb' 25 6 ++ w.extractLsb' 8 4) i = _
  simp only [BitVec.getLsbD_append]

/-- Four pieces, of an offset that is even again. -/
theorem getLsbD_immJ (w : Word) (i : ℕ) : (immJ w).getLsbD i =
    if i < 10 then (w.extractLsb' 21 10).getLsbD i
    else if i - 10 < 1 then (w.extractLsb' 20 1).getLsbD (i - 10)
    else if i - 10 - 1 < 8 then (w.extractLsb' 12 8).getLsbD (i - 10 - 1)
    else (w.extractLsb' 31 1).getLsbD (i - 10 - 1 - 8) := by
  change @BitVec.getLsbD (1 + 8 + 1 + 10) (w.extractLsb' 31 1 ++ w.extractLsb' 12 8 ++
    w.extractLsb' 20 1 ++ w.extractLsb' 21 10) i = _
  simp only [BitVec.getLsbD_append]

/-! ## Fields of the scattered immediates -/

section

variable (w : Word)

/-- `imm[11:5]` stands in the place of `funct7`, in an S-format word. -/
theorem immS_high : (immS w).extractLsb' 5 7 = w.extractLsb' 25 7 := by
  apply BitVec.eq_of_getLsbD_eq
  intro i hi
  simp only [BitVec.getLsbD_extractLsb', getLsbD_immS]
  simp [hi]

/-- `imm[4:0]` stands in the place of `rd`. -/
theorem immS_low : (immS w).extractLsb' 0 5 = w.extractLsb' 7 5 := by
  apply BitVec.eq_of_getLsbD_eq
  intro i hi
  simp only [BitVec.getLsbD_extractLsb', getLsbD_immS]
  simp [hi]

/-- `offset[12]`, the sign of a branch, is the sign of the word. -/
theorem immB_sign : (immB w).extractLsb' 11 1 = w.extractLsb' 31 1 := by
  apply BitVec.eq_of_getLsbD_eq
  intro i hi
  simp only [BitVec.getLsbD_extractLsb', getLsbD_immB]
  interval_cases i
  simp

/-- `offset[11]` of a branch stands where an S-format word has `imm[0]`. -/
theorem immB_bit10 : (immB w).extractLsb' 10 1 = w.extractLsb' 7 1 := by
  apply BitVec.eq_of_getLsbD_eq
  intro i hi
  simp only [BitVec.getLsbD_extractLsb', getLsbD_immB]
  interval_cases i
  simp

theorem immB_high : (immB w).extractLsb' 4 6 = w.extractLsb' 25 6 := by
  apply BitVec.eq_of_getLsbD_eq
  intro i hi
  simp only [BitVec.getLsbD_extractLsb', getLsbD_immB]
  simp [hi]

theorem immB_low : (immB w).extractLsb' 0 4 = w.extractLsb' 8 4 := by
  apply BitVec.eq_of_getLsbD_eq
  intro i hi
  simp only [BitVec.getLsbD_extractLsb', getLsbD_immB]
  simp [hi]

/-- The sign of a jump is the sign of the word, too. -/
theorem immJ_sign : (immJ w).extractLsb' 19 1 = w.extractLsb' 31 1 := by
  apply BitVec.eq_of_getLsbD_eq
  intro i hi
  simp only [BitVec.getLsbD_extractLsb', getLsbD_immJ]
  interval_cases i
  simp

/-- `offset[19:12]` of a jump stands where a U-format word has the same bits. -/
theorem immJ_high : (immJ w).extractLsb' 11 8 = w.extractLsb' 12 8 := by
  apply BitVec.eq_of_getLsbD_eq
  intro i hi
  simp only [BitVec.getLsbD_extractLsb', getLsbD_immJ]
  rw [if_neg (by omega), if_neg (by omega), show 11 + i - 10 - 1 = i by omega]
  simp [hi]

/-- `offset[11]` of a jump stands right above these bits. -/
theorem immJ_bit10 : (immJ w).extractLsb' 10 1 = w.extractLsb' 20 1 := by
  apply BitVec.eq_of_getLsbD_eq
  intro i hi
  simp only [BitVec.getLsbD_extractLsb', getLsbD_immJ]
  interval_cases i
  simp

theorem immJ_low : (immJ w).extractLsb' 0 10 = w.extractLsb' 21 10 := by
  apply BitVec.eq_of_getLsbD_eq
  intro i hi
  simp only [BitVec.getLsbD_extractLsb', getLsbD_immJ]
  simp [hi]

end

/-! ## A word is put together from its fields -/

section

variable (w : Word)

/-- Six fields, side by side. -/
theorem rType_fields : rType (w.extractLsb' 25 7) (rs2Of w) (rs1Of w) (w.extractLsb' 12 3) (rdOf w)
    (w.extractLsb' 0 7) = w := by
  unfold rType rs2Of rs1Of rdOf
  rw [BitVec.extractLsb'_append_extractLsb'_eq_extractLsb' (show 25 = 20 + 5 by rfl),
    BitVec.extractLsb'_append_extractLsb'_eq_extractLsb' (show 20 = 15 + 5 by rfl),
    BitVec.extractLsb'_append_extractLsb'_eq_extractLsb' (show 15 = 12 + 3 by rfl),
    BitVec.extractLsb'_append_extractLsb'_eq_extractLsb' (show 12 = 7 + 5 by rfl),
    BitVec.extractLsb'_append_extractLsb'_eq_extractLsb' (show 7 = 0 + 7 by rfl)]
  exact BitVec.extractLsb'_eq_self

/-- The immediate takes the places of `funct7` and `rs2`. -/
theorem iType_fields : iType (immI w) (rs1Of w) (w.extractLsb' 12 3) (rdOf w)
    (w.extractLsb' 0 7) = w := by
  unfold iType immI rs1Of rdOf
  rw [BitVec.extractLsb'_append_extractLsb'_eq_extractLsb' (show 20 = 15 + 5 by rfl),
    BitVec.extractLsb'_append_extractLsb'_eq_extractLsb' (show 15 = 12 + 3 by rfl),
    BitVec.extractLsb'_append_extractLsb'_eq_extractLsb' (show 12 = 7 + 5 by rfl),
    BitVec.extractLsb'_append_extractLsb'_eq_extractLsb' (show 7 = 0 + 7 by rfl)]
  exact BitVec.extractLsb'_eq_self

/-- The immediate takes the places of `funct7` and `rd`. -/
theorem sType_fields : sType (immS w) (rs2Of w) (rs1Of w) (w.extractLsb' 12 3)
    (w.extractLsb' 0 7) = w := by
  unfold sType rs2Of rs1Of
  rw [immS_high, immS_low,
    BitVec.extractLsb'_append_extractLsb'_eq_extractLsb' (show 25 = 20 + 5 by rfl),
    BitVec.extractLsb'_append_extractLsb'_eq_extractLsb' (show 20 = 15 + 5 by rfl),
    BitVec.extractLsb'_append_extractLsb'_eq_extractLsb' (show 15 = 12 + 3 by rfl),
    BitVec.extractLsb'_append_extractLsb'_eq_extractLsb' (show 12 = 7 + 5 by rfl),
    BitVec.extractLsb'_append_extractLsb'_eq_extractLsb' (show 7 = 0 + 7 by rfl)]
  exact BitVec.extractLsb'_eq_self

/-- As in the S format, but with the bits of the immediate in another order. -/
theorem bType_fields : bType (immB w) (rs2Of w) (rs1Of w) (w.extractLsb' 12 3)
    (w.extractLsb' 0 7) = w := by
  unfold bType rs2Of rs1Of
  rw [immB_sign, immB_high, immB_low, immB_bit10,
    BitVec.extractLsb'_append_extractLsb'_eq_extractLsb' (show 31 = 25 + 6 by rfl),
    BitVec.extractLsb'_append_extractLsb'_eq_extractLsb' (show 25 = 20 + 5 by rfl),
    BitVec.extractLsb'_append_extractLsb'_eq_extractLsb' (show 20 = 15 + 5 by rfl),
    BitVec.extractLsb'_append_extractLsb'_eq_extractLsb' (show 15 = 12 + 3 by rfl),
    BitVec.extractLsb'_append_extractLsb'_eq_extractLsb' (show 12 = 8 + 4 by rfl),
    BitVec.extractLsb'_append_extractLsb'_eq_extractLsb' (show 8 = 7 + 1 by rfl),
    BitVec.extractLsb'_append_extractLsb'_eq_extractLsb' (show 7 = 0 + 7 by rfl)]
  exact BitVec.extractLsb'_eq_self

/-- The immediate takes the places of all fields above `rd`. -/
theorem uType_fields : uType (immU w) (rdOf w) (w.extractLsb' 0 7) = w := by
  unfold uType immU rdOf
  rw [BitVec.extractLsb'_append_extractLsb'_eq_extractLsb' (show 12 = 7 + 5 by rfl),
    BitVec.extractLsb'_append_extractLsb'_eq_extractLsb' (show 7 = 0 + 7 by rfl)]
  exact BitVec.extractLsb'_eq_self

/-- As in the U format, but with the bits of the immediate in another order. -/
theorem jType_fields : jType (immJ w) (rdOf w) (w.extractLsb' 0 7) = w := by
  unfold jType rdOf
  rw [immJ_sign, immJ_low, immJ_bit10, immJ_high,
    BitVec.extractLsb'_append_extractLsb'_eq_extractLsb' (show 31 = 21 + 10 by rfl),
    BitVec.extractLsb'_append_extractLsb'_eq_extractLsb' (show 21 = 20 + 1 by rfl),
    BitVec.extractLsb'_append_extractLsb'_eq_extractLsb' (show 20 = 12 + 8 by rfl),
    BitVec.extractLsb'_append_extractLsb'_eq_extractLsb' (show 12 = 7 + 5 by rfl),
    BitVec.extractLsb'_append_extractLsb'_eq_extractLsb' (show 7 = 0 + 7 by rfl)]
  exact BitVec.extractLsb'_eq_self

end

/-! ## The fixed fields of a format -/

/-- A slice of the low part of an `append`. -/
theorem slice_of_low {n m start len : ℕ} (x : BitVec n) (y : BitVec m) (h : start + len ≤ m) :
    (x ++ y).extractLsb' start len = y.extractLsb' start len := by
  apply BitVec.eq_of_getLsbD_eq
  intro i hi
  simp only [BitVec.getLsbD_extractLsb', BitVec.getLsbD_append, show start + i < m by omega,
    if_true]

/-- A slice of the high part of an `append`. -/
theorem slice_of_high {n m start len : ℕ} (x : BitVec n) (y : BitVec m) (h : m ≤ start) :
    (x ++ y).extractLsb' start len = x.extractLsb' (start - m) len := by
  apply BitVec.eq_of_getLsbD_eq
  intro i hi
  simp only [BitVec.getLsbD_extractLsb', BitVec.getLsbD_append]
  rw [if_neg (by omega), show start + i - m = start - m + i by omega]

section

variable (funct7 : BitVec 7) (rs2 rs1 rd : Reg) (funct3 : BitVec 3) (opcode : BitVec 7)
  (imm : BitVec 12) (imm20 : BitVec 20)

/-- The opcode is the low end of every format. -/
theorem rType_opcode : (rType funct7 rs2 rs1 funct3 rd opcode).extractLsb' 0 7 = opcode :=
  (slice_of_low _ _ (by omega)).trans BitVec.extractLsb'_eq_self

/-- `funct3` is at the same place in every format that has it. -/
theorem rType_funct3 : (rType funct7 rs2 rs1 funct3 rd opcode).extractLsb' 12 3 = funct3 :=
  (slice_of_high _ _ (by omega)).trans <| (slice_of_high _ _ (by omega)).trans <|
    (slice_of_low _ _ (by omega)).trans BitVec.extractLsb'_eq_self

/-- `funct7` is the high end of an R-format word. -/
theorem rType_funct7 : (rType funct7 rs2 rs1 funct3 rd opcode).extractLsb' 25 7 = funct7 :=
  (slice_of_high _ _ (by omega)).trans <| (slice_of_high _ _ (by omega)).trans <|
    (slice_of_high _ _ (by omega)).trans <| (slice_of_high _ _ (by omega)).trans <|
      (slice_of_high _ _ (by omega)).trans BitVec.extractLsb'_eq_self

theorem iType_opcode : (iType imm rs1 funct3 rd opcode).extractLsb' 0 7 = opcode :=
  (slice_of_low _ _ (by omega)).trans BitVec.extractLsb'_eq_self

theorem iType_funct3 : (iType imm rs1 funct3 rd opcode).extractLsb' 12 3 = funct3 :=
  (slice_of_high _ _ (by omega)).trans <| (slice_of_high _ _ (by omega)).trans <|
    (slice_of_low _ _ (by omega)).trans BitVec.extractLsb'_eq_self

/-- The seven bits of `funct7` are the high bits of an I-format immediate. -/
theorem iType_funct7 :
    (iType imm rs1 funct3 rd opcode).extractLsb' 25 7 = imm.extractLsb' 5 7 :=
  (slice_of_high _ _ (by omega)).trans <| (slice_of_high _ _ (by omega)).trans <|
    (slice_of_high _ _ (by omega)).trans (slice_of_high _ _ (by omega))

theorem iType_imm : (iType imm rs1 funct3 rd opcode).extractLsb' 20 12 = imm :=
  (slice_of_high _ _ (by omega)).trans <| (slice_of_high _ _ (by omega)).trans <|
    (slice_of_high _ _ (by omega)).trans <| (slice_of_high _ _ (by omega)).trans
      BitVec.extractLsb'_eq_self

theorem sType_opcode : (sType imm rs2 rs1 funct3 opcode).extractLsb' 0 7 = opcode :=
  (slice_of_low _ _ (by omega)).trans BitVec.extractLsb'_eq_self

theorem sType_funct3 : (sType imm rs2 rs1 funct3 opcode).extractLsb' 12 3 = funct3 :=
  (slice_of_high _ _ (by omega)).trans <| (slice_of_high _ _ (by omega)).trans <|
    (slice_of_low _ _ (by omega)).trans BitVec.extractLsb'_eq_self

theorem bType_opcode : (bType imm rs2 rs1 funct3 opcode).extractLsb' 0 7 = opcode :=
  (slice_of_low _ _ (by omega)).trans BitVec.extractLsb'_eq_self

/-- Below it, a branch has two pieces of its immediate in the place of `rd`. -/
theorem bType_funct3 : (bType imm rs2 rs1 funct3 opcode).extractLsb' 12 3 = funct3 :=
  (slice_of_high _ _ (by omega)).trans <| (slice_of_high _ _ (by omega)).trans <|
    (slice_of_high _ _ (by omega)).trans <| (slice_of_low _ _ (by omega)).trans
      BitVec.extractLsb'_eq_self

theorem uType_opcode : (uType imm20 rd opcode).extractLsb' 0 7 = opcode :=
  (slice_of_low _ _ (by omega)).trans BitVec.extractLsb'_eq_self

theorem jType_opcode : (jType imm20 rd opcode).extractLsb' 0 7 = opcode :=
  (slice_of_low _ _ (by omega)).trans BitVec.extractLsb'_eq_self

end

/-! ## The operands of a format -/

section

variable (funct7 : BitVec 7) (rs2 rs1 rd : Reg) (funct3 : BitVec 3) (opcode : BitVec 7)
  (imm : BitVec 12) (imm20 : BitVec 20)

/-- `rd` is right above the opcode in every format that has it. -/
theorem rType_rd : rdOf (rType funct7 rs2 rs1 funct3 rd opcode) = rd :=
  (slice_of_high _ _ (by omega)).trans <| (slice_of_low _ _ (by omega)).trans
    BitVec.extractLsb'_eq_self

/-- `rs1` is right above `funct3`, `rs2` above `rs1`, in every format that has them. -/
theorem rType_rs1 : rs1Of (rType funct7 rs2 rs1 funct3 rd opcode) = rs1 :=
  (slice_of_high _ _ (by omega)).trans <| (slice_of_high _ _ (by omega)).trans <|
    (slice_of_high _ _ (by omega)).trans <| (slice_of_low _ _ (by omega)).trans
      BitVec.extractLsb'_eq_self

theorem rType_rs2 : rs2Of (rType funct7 rs2 rs1 funct3 rd opcode) = rs2 :=
  (slice_of_high _ _ (by omega)).trans <| (slice_of_high _ _ (by omega)).trans <|
    (slice_of_high _ _ (by omega)).trans <| (slice_of_high _ _ (by omega)).trans <|
      (slice_of_low _ _ (by omega)).trans BitVec.extractLsb'_eq_self

theorem iType_rd : rdOf (iType imm rs1 funct3 rd opcode) = rd :=
  (slice_of_high _ _ (by omega)).trans <| (slice_of_low _ _ (by omega)).trans
    BitVec.extractLsb'_eq_self

theorem iType_rs1 : rs1Of (iType imm rs1 funct3 rd opcode) = rs1 :=
  (slice_of_high _ _ (by omega)).trans <| (slice_of_high _ _ (by omega)).trans <|
    (slice_of_high _ _ (by omega)).trans <| (slice_of_low _ _ (by omega)).trans
      BitVec.extractLsb'_eq_self

/-- The shift amount is the low part of an I-format immediate. -/
theorem iType_shamt (shamt : BitVec 5) :
    rs2Of (iType (funct7 ++ shamt) rs1 funct3 rd opcode) = shamt :=
  (slice_of_high _ _ (by omega)).trans <| (slice_of_high _ _ (by omega)).trans <|
    (slice_of_high _ _ (by omega)).trans <| (slice_of_high _ _ (by omega)).trans <|
      (slice_of_low _ _ (by omega)).trans BitVec.extractLsb'_eq_self

theorem sType_rs1 : rs1Of (sType imm rs2 rs1 funct3 opcode) = rs1 :=
  (slice_of_high _ _ (by omega)).trans <| (slice_of_high _ _ (by omega)).trans <|
    (slice_of_high _ _ (by omega)).trans <| (slice_of_low _ _ (by omega)).trans
      BitVec.extractLsb'_eq_self

theorem sType_rs2 : rs2Of (sType imm rs2 rs1 funct3 opcode) = rs2 :=
  (slice_of_high _ _ (by omega)).trans <| (slice_of_high _ _ (by omega)).trans <|
    (slice_of_high _ _ (by omega)).trans <| (slice_of_high _ _ (by omega)).trans <|
      (slice_of_low _ _ (by omega)).trans BitVec.extractLsb'_eq_self

/-- The two pieces of the immediate are put together again. -/
theorem sType_imm : immS (sType imm rs2 rs1 funct3 opcode) = imm := by
  have hhigh : (sType imm rs2 rs1 funct3 opcode).extractLsb' 25 7 = imm.extractLsb' 5 7 :=
    (slice_of_high _ _ (by omega)).trans <| (slice_of_high _ _ (by omega)).trans <|
      (slice_of_high _ _ (by omega)).trans <| (slice_of_high _ _ (by omega)).trans <|
        (slice_of_high _ _ (by omega)).trans BitVec.extractLsb'_eq_self
  have hlow : (sType imm rs2 rs1 funct3 opcode).extractLsb' 7 5 = imm.extractLsb' 0 5 :=
    (slice_of_high _ _ (by omega)).trans <| (slice_of_low _ _ (by omega)).trans
      BitVec.extractLsb'_eq_self
  rw [immS, hhigh, hlow,
    BitVec.extractLsb'_append_extractLsb'_eq_extractLsb' (show 5 = 0 + 5 by rfl)]
  exact BitVec.extractLsb'_eq_self

theorem bType_rs1 : rs1Of (bType imm rs2 rs1 funct3 opcode) = rs1 :=
  (slice_of_high _ _ (by omega)).trans <| (slice_of_high _ _ (by omega)).trans <|
    (slice_of_high _ _ (by omega)).trans <| (slice_of_high _ _ (by omega)).trans <|
      (slice_of_low _ _ (by omega)).trans BitVec.extractLsb'_eq_self

theorem bType_rs2 : rs2Of (bType imm rs2 rs1 funct3 opcode) = rs2 :=
  (slice_of_high _ _ (by omega)).trans <| (slice_of_high _ _ (by omega)).trans <|
    (slice_of_high _ _ (by omega)).trans <| (slice_of_high _ _ (by omega)).trans <|
      (slice_of_high _ _ (by omega)).trans <| (slice_of_low _ _ (by omega)).trans
        BitVec.extractLsb'_eq_self

/-- The four pieces of the offset of a branch are put together again. -/
theorem bType_imm : immB (bType imm rs2 rs1 funct3 opcode) = imm := by
  have hsign : (bType imm rs2 rs1 funct3 opcode).extractLsb' 31 1 = imm.extractLsb' 11 1 :=
    (slice_of_high _ _ (by omega)).trans <| (slice_of_high _ _ (by omega)).trans <|
      (slice_of_high _ _ (by omega)).trans <| (slice_of_high _ _ (by omega)).trans <|
        (slice_of_high _ _ (by omega)).trans <| (slice_of_high _ _ (by omega)).trans <|
          (slice_of_high _ _ (by omega)).trans BitVec.extractLsb'_eq_self
  have hhigh : (bType imm rs2 rs1 funct3 opcode).extractLsb' 25 6 = imm.extractLsb' 4 6 :=
    (slice_of_high _ _ (by omega)).trans <| (slice_of_high _ _ (by omega)).trans <|
      (slice_of_high _ _ (by omega)).trans <| (slice_of_high _ _ (by omega)).trans <|
        (slice_of_high _ _ (by omega)).trans <| (slice_of_high _ _ (by omega)).trans <|
          (slice_of_low _ _ (by omega)).trans BitVec.extractLsb'_eq_self
  have hlow : (bType imm rs2 rs1 funct3 opcode).extractLsb' 8 4 = imm.extractLsb' 0 4 :=
    (slice_of_high _ _ (by omega)).trans <| (slice_of_high _ _ (by omega)).trans <|
      (slice_of_low _ _ (by omega)).trans BitVec.extractLsb'_eq_self
  have hbit10 : (bType imm rs2 rs1 funct3 opcode).extractLsb' 7 1 = imm.extractLsb' 10 1 :=
    (slice_of_high _ _ (by omega)).trans <| (slice_of_low _ _ (by omega)).trans
      BitVec.extractLsb'_eq_self
  rw [immB, hsign, hhigh, hlow, hbit10,
    BitVec.extractLsb'_append_extractLsb'_eq_extractLsb' (show 11 = 10 + 1 by rfl),
    BitVec.extractLsb'_append_extractLsb'_eq_extractLsb' (show 10 = 4 + 6 by rfl),
    BitVec.extractLsb'_append_extractLsb'_eq_extractLsb' (show 4 = 0 + 4 by rfl)]
  exact BitVec.extractLsb'_eq_self

theorem uType_rd : rdOf (uType imm20 rd opcode) = rd :=
  (slice_of_high _ _ (by omega)).trans <| (slice_of_low _ _ (by omega)).trans
    BitVec.extractLsb'_eq_self

theorem uType_imm : immU (uType imm20 rd opcode) = imm20 :=
  (slice_of_high _ _ (by omega)).trans <| (slice_of_high _ _ (by omega)).trans
    BitVec.extractLsb'_eq_self

theorem jType_rd : rdOf (jType imm20 rd opcode) = rd :=
  (slice_of_high _ _ (by omega)).trans <| (slice_of_low _ _ (by omega)).trans
    BitVec.extractLsb'_eq_self

/-- The same for the four pieces of the offset of a jump. -/
theorem jType_imm : immJ (jType imm20 rd opcode) = imm20 := by
  have hsign : (jType imm20 rd opcode).extractLsb' 31 1 = imm20.extractLsb' 19 1 :=
    (slice_of_high _ _ (by omega)).trans <| (slice_of_high _ _ (by omega)).trans <|
      (slice_of_high _ _ (by omega)).trans <| (slice_of_high _ _ (by omega)).trans <|
        (slice_of_high _ _ (by omega)).trans BitVec.extractLsb'_eq_self
  have hlow : (jType imm20 rd opcode).extractLsb' 21 10 = imm20.extractLsb' 0 10 :=
    (slice_of_high _ _ (by omega)).trans <| (slice_of_high _ _ (by omega)).trans <|
      (slice_of_high _ _ (by omega)).trans <| (slice_of_high _ _ (by omega)).trans <|
        (slice_of_low _ _ (by omega)).trans BitVec.extractLsb'_eq_self
  have hbit10 : (jType imm20 rd opcode).extractLsb' 20 1 = imm20.extractLsb' 10 1 :=
    (slice_of_high _ _ (by omega)).trans <| (slice_of_high _ _ (by omega)).trans <|
      (slice_of_high _ _ (by omega)).trans <| (slice_of_low _ _ (by omega)).trans
        BitVec.extractLsb'_eq_self
  have hhigh : (jType imm20 rd opcode).extractLsb' 12 8 = imm20.extractLsb' 11 8 :=
    (slice_of_high _ _ (by omega)).trans <| (slice_of_high _ _ (by omega)).trans <|
      (slice_of_low _ _ (by omega)).trans BitVec.extractLsb'_eq_self
  rw [immJ, hsign, hhigh, hlow, hbit10,
    BitVec.extractLsb'_append_extractLsb'_eq_extractLsb' (show 19 = 11 + 8 by rfl),
    BitVec.extractLsb'_append_extractLsb'_eq_extractLsb' (show 11 = 10 + 1 by rfl),
    BitVec.extractLsb'_append_extractLsb'_eq_extractLsb' (show 10 = 0 + 10 by rfl)]
  exact BitVec.extractLsb'_eq_self

end

end RvPipeline.Isa
