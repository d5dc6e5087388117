import RvPipeline.Model.Encoders
import RvPipeline.Decode.Accepts

/-!
# Decoding undoes encoding

The encoders of the tests put a word together by masks, shifts and `|`. Within
the documented ranges of the operands the word is that of the ISA format
(`encodeR_eq`, …, `encodeJ_eq`), so what is known of the decoder on encodings
applies to it.

* `decode_encode`: for every kind but `ecall` and `ebreak`, decoding the encoded
  word gives back the kind, the registers its format has and the immediate.
-/

namespace RvPipeline

open Isa

/-! ## Shifted fields -/

/-- Two shifted neighbouring fields are one shifted field. -/
theorem shift_append {n m j : ℕ} (x : BitVec n) (y : BitVec m) (k : ℕ) (hj : j = m + k) :
    (x.setWidth 32 <<< j) ||| (y.setWidth 32 <<< k) = (x ++ y).setWidth 32 <<< k := by
  subst hj
  apply BitVec.eq_of_getLsbD_eq
  intro i hi
  simp only [BitVec.getLsbD_or, BitVec.getLsbD_shiftLeft, BitVec.getLsbD_setWidth,
    BitVec.getLsbD_append]
  by_cases hk : i < k
  · simp [hk, show i < m + k by omega]
  by_cases hm : i - k < m
  · simp [hk, hm, show i < m + k by omega]
  · rw [show i - (m + k) = i - k - m by omega]
    have hy : y.getLsbD (i - k) = false := BitVec.getLsbD_of_ge _ _ (by omega)
    simp [hk, hm, hi, hy, show ¬ i < m + k by omega, show i - k - m < 32 by omega,
      show i - k < 32 by omega]

/-- An operand that fits into its field. -/
theorem setWidth_field {n : ℕ} {x : BitVec 8} (h : x.toNat < 2 ^ n) :
    x.setWidth 32 = (x.setWidth n).setWidth 32 := by
  apply BitVec.eq_of_toNat_eq
  rw [BitVec.toNat_setWidth, BitVec.toNat_setWidth, BitVec.toNat_setWidth, Nat.mod_eq_of_lt h]

/-- A masked word is its low slice. -/
theorem mask_field {n : ℕ} {mask : Word} (v : Word) (hn : n < 32)
    (hmask : mask = (1#32 <<< n) - 1) : v &&& mask = (v.setWidth n).setWidth 32 := by
  apply BitVec.eq_of_getLsbD_eq
  intro i hi
  rw [hmask, BitVec.getLsbD_and, getLsbD_mask hn, BitVec.getLsbD_setWidth, BitVec.getLsbD_setWidth]
  simp [hi, Bool.and_comm]

/-- A masked, shifted and again masked word is a slice. -/
theorem slice_field {n lo k : ℕ} {mask mask' : Word} (v : Word) (hn : n < 32) (hk : k < 32)
    (hlo : lo + n ≤ k) (hmask : mask = (1#32 <<< n) - 1) (hmask' : mask' = (1#32 <<< k) - 1) :
    ((v &&& mask') >>> lo) &&& mask = (v.extractLsb' lo n).setWidth 32 := by
  apply BitVec.eq_of_getLsbD_eq
  intro i hi
  rw [hmask, hmask', BitVec.getLsbD_and, BitVec.getLsbD_ushiftRight, BitVec.getLsbD_and,
    getLsbD_mask hn, getLsbD_mask hk, BitVec.getLsbD_setWidth, BitVec.getLsbD_extractLsb']
  by_cases hin : i < n
  · simp [hin, hi, show lo + i < k by omega]
  · simp [hin]

theorem slice_setWidth {n start len : ℕ} (v : Word) (h : start + len ≤ n) :
    (v.setWidth n).extractLsb' start len = v.extractLsb' start len := by
  apply BitVec.eq_of_getLsbD_eq
  intro i hi
  simp only [BitVec.getLsbD_extractLsb', BitVec.getLsbD_setWidth]
  simp [show start + i < n by omega]

theorem slice_slice {n start start' len : ℕ} (v : Word) (h : start' + len ≤ n) :
    (v.extractLsb' start n).extractLsb' start' len = v.extractLsb' (start + start') len := by
  apply BitVec.eq_of_getLsbD_eq
  intro i hi
  simp only [BitVec.getLsbD_extractLsb']
  simp [show start' + i < n by omega, Nat.add_assoc]

/-- A word shifted by nothing is the word. -/
theorem shift_whole (w : Word) : w.setWidth 32 <<< 0 = w := by
  rw [BitVec.setWidth_eq, BitVec.shiftLeft_zero]

/-! ## The encoders build the formats -/

section

variable {funct7 rs2 rs1 funct3 rd shamt opcode : BitVec 8} (imm : Word)
  (h7 : funct7.toNat < 2 ^ 7) (h3 : funct3.toNat < 2 ^ 3) (hop : opcode.toNat < 2 ^ 7)
  (hrd : rd.toNat < 2 ^ 5) (hrs1 : rs1.toNat < 2 ^ 5) (hrs2 : rs2.toNat < 2 ^ 5)
  (hshamt : shamt.toNat < 2 ^ 5)

include h7 h3 hrd hrs1 hrs2 in
theorem encodeR_eq : encodeR funct7 rs2 rs1 funct3 rd =
    rType (funct7.setWidth 7) (rs2.setWidth 5) (rs1.setWidth 5) (funct3.setWidth 3)
      (rd.setWidth 5) 0x33 := by
  have hlast : (0x33 : Word) = (0x33#7).setWidth 32 <<< 0 := rfl
  rw [encodeR, hlast, setWidth_field h7, setWidth_field h3, setWidth_field hrd,
    setWidth_field hrs1, setWidth_field hrs2,
    shift_append _ _ 20 rfl, shift_append _ _ 15 rfl, shift_append _ _ 12 rfl,
    shift_append _ _ 7 rfl, shift_append _ _ 0 rfl]
  exact shift_whole _

include h3 hop hrd hrs1 in
theorem encodeI_eq : encodeI imm rs1 funct3 rd opcode =
    iType (imm.setWidth 12) (rs1.setWidth 5) (funct3.setWidth 3) (rd.setWidth 5)
      (opcode.setWidth 7) := by
  have hlast : opcode.setWidth 32 = (opcode.setWidth 7).setWidth 32 <<< 0 := by
    rw [← setWidth_field hop, BitVec.shiftLeft_zero]
  have himm : imm &&& 0xFFF = (imm.setWidth 12).setWidth 32 := mask_field imm (by omega) rfl
  rw [encodeI, hlast, himm, setWidth_field h3, setWidth_field hrd, setWidth_field hrs1,
    shift_append _ _ 15 rfl, shift_append _ _ 12 rfl, shift_append _ _ 7 rfl,
    shift_append _ _ 0 rfl]
  exact shift_whole _

include h7 h3 hrd hrs1 in
theorem encodeShiftI_eq : encodeShiftI funct7 shamt rs1 funct3 rd =
    iType (funct7.setWidth 7 ++ shamt.setWidth 5) (rs1.setWidth 5) (funct3.setWidth 3)
      (rd.setWidth 5) 0x13 := by
  have hlast : (0x13 : Word) = (0x13#7).setWidth 32 <<< 0 := rfl
  have hshamt : shamt.setWidth 32 &&& 0x1F = (shamt.setWidth 5).setWidth 32 := by
    have hmask : shamt.setWidth 32 &&& 0x1F = ((shamt.setWidth 32).setWidth 5).setWidth 32 :=
      mask_field _ (by omega) rfl
    rw [hmask, BitVec.setWidth_setWidth_of_le shamt (show 5 ≤ 32 by omega)]
  rw [encodeShiftI, hlast, hshamt, setWidth_field h7, setWidth_field h3, setWidth_field hrd,
    setWidth_field hrs1,
    shift_append _ _ 20 rfl, shift_append _ _ 15 rfl, shift_append _ _ 12 rfl,
    shift_append _ _ 7 rfl, shift_append _ _ 0 rfl]
  exact shift_whole _

include h3 hrs1 hrs2 in
theorem encodeS_eq : encodeS imm rs2 rs1 funct3 =
    sType (imm.setWidth 12) (rs2.setWidth 5) (rs1.setWidth 5) (funct3.setWidth 3) 0x23 := by
  have hlast : (0x23 : Word) = (0x23#7).setWidth 32 <<< 0 := rfl
  have hhigh : ((imm &&& 0xFFF) >>> 5) &&& 0x7F = (imm.extractLsb' 5 7).setWidth 32 :=
    slice_field (k := 12) imm (by omega) (by omega) (by omega) rfl rfl
  have hlow : (imm &&& 0xFFF) &&& 0x1F = (imm.extractLsb' 0 5).setWidth 32 := by
    rw [← BitVec.ushiftRight_zero (imm &&& 0xFFF)]
    exact slice_field (k := 12) imm (by omega) (by omega) (by omega) rfl rfl
  simp only [encodeS]
  rw [hlast, hhigh, hlow, setWidth_field h3, setWidth_field hrs1, setWidth_field hrs2,
    shift_append _ _ 20 rfl, shift_append _ _ 15 rfl, shift_append _ _ 12 rfl,
    shift_append _ _ 7 rfl, shift_append _ _ 0 rfl, shift_whole, sType,
    slice_setWidth imm (show 5 + 7 ≤ 12 by omega), slice_setWidth imm (show 0 + 5 ≤ 12 by omega)]
  rfl

include h3 hrs1 hrs2 in
theorem encodeB_eq : encodeB imm rs2 rs1 funct3 =
    bType (imm.extractLsb' 1 12) (rs2.setWidth 5) (rs1.setWidth 5) (funct3.setWidth 3) 0x63 := by
  have hlast : (0x63 : Word) = (0x63#7).setWidth 32 <<< 0 := rfl
  have hsign : ((imm &&& 0x1FFF) >>> 12) &&& 0x1 = (imm.extractLsb' 12 1).setWidth 32 :=
    slice_field (k := 13) imm (by omega) (by omega) (by omega) rfl rfl
  have hhigh : ((imm &&& 0x1FFF) >>> 5) &&& 0x3F = (imm.extractLsb' 5 6).setWidth 32 :=
    slice_field (k := 13) imm (by omega) (by omega) (by omega) rfl rfl
  have hlow : ((imm &&& 0x1FFF) >>> 1) &&& 0xF = (imm.extractLsb' 1 4).setWidth 32 :=
    slice_field (k := 13) imm (by omega) (by omega) (by omega) rfl rfl
  have hbit11 : ((imm &&& 0x1FFF) >>> 11) &&& 0x1 = (imm.extractLsb' 11 1).setWidth 32 :=
    slice_field (k := 13) imm (by omega) (by omega) (by omega) rfl rfl
  simp only [encodeB]
  rw [hlast, hsign, hhigh, hlow, hbit11, setWidth_field h3, setWidth_field hrs1,
    setWidth_field hrs2,
    shift_append _ _ 25 rfl, shift_append _ _ 20 rfl, shift_append _ _ 15 rfl,
    shift_append _ _ 12 rfl, shift_append _ _ 8 rfl, shift_append _ _ 7 rfl,
    shift_append _ _ 0 rfl, shift_whole, bType,
    slice_slice imm (by omega), slice_slice imm (by omega), slice_slice imm (by omega),
    slice_slice imm (by omega)]
  rfl

include hop hrd in
theorem encodeU_eq : encodeU imm rd opcode =
    uType (imm.setWidth 20) (rd.setWidth 5) (opcode.setWidth 7) := by
  have hlast : opcode.setWidth 32 = (opcode.setWidth 7).setWidth 32 <<< 0 := by
    rw [← setWidth_field hop, BitVec.shiftLeft_zero]
  have himm : imm &&& 0xFFFFF = (imm.setWidth 20).setWidth 32 := mask_field imm (by omega) rfl
  rw [encodeU, hlast, himm, setWidth_field hrd, shift_append _ _ 7 rfl, shift_append _ _ 0 rfl]
  exact shift_whole _

include hrd in
theorem encodeJ_eq : encodeJ imm rd = jType (imm.extractLsb' 1 20) (rd.setWidth 5) 0x6F := by
  have hlast : (0x6F : Word) = (0x6F#7).setWidth 32 <<< 0 := rfl
  have hsign : ((imm &&& 0x1FFFFF) >>> 20) &&& 0x1 = (imm.extractLsb' 20 1).setWidth 32 :=
    slice_field (k := 21) imm (by omega) (by omega) (by omega) rfl rfl
  have hlow : ((imm &&& 0x1FFFFF) >>> 1) &&& 0x3FF = (imm.extractLsb' 1 10).setWidth 32 :=
    slice_field (k := 21) imm (by omega) (by omega) (by omega) rfl rfl
  have hbit11 : ((imm &&& 0x1FFFFF) >>> 11) &&& 0x1 = (imm.extractLsb' 11 1).setWidth 32 :=
    slice_field (k := 21) imm (by omega) (by omega) (by omega) rfl rfl
  have hhigh : ((imm &&& 0x1FFFFF) >>> 12) &&& 0xFF = (imm.extractLsb' 12 8).setWidth 32 :=
    slice_field (k := 21) imm (by omega) (by omega) (by omega) rfl rfl
  simp only [encodeJ]
  rw [hlast, hsign, hlow, hbit11, hhigh, setWidth_field hrd,
    shift_append _ _ 21 rfl, shift_append _ _ 20 rfl, shift_append _ _ 12 rfl,
    shift_append _ _ 7 rfl, shift_append _ _ 0 rfl, shift_whole, jType,
    slice_slice imm (by omega), slice_slice imm (by omega), slice_slice imm (by omega),
    slice_slice imm (by omega)]
  rfl

end

/-! ## Operands within their documented ranges -/

/-- Operands as the encoders take them, each within the range the ISA gives it. -/
structure LegalOperands where
  rd : BitVec 8
  rs1 : BitVec 8
  rs2 : BitVec 8
  shamt : BitVec 8
  immI : Word
  immS : Word
  immB : Word
  imm20 : Word
  immJ : Word
  rd_lt : rd.toNat < 32
  rs1_lt : rs1.toNat < 32
  rs2_lt : rs2.toNat < 32
  shamt_lt : shamt.toNat < 32
  immI_range : -2048 ≤ immI.toInt ∧ immI.toInt ≤ 2047
  immS_range : -2048 ≤ immS.toInt ∧ immS.toInt ≤ 2047
  immB_range : -4096 ≤ immB.toInt ∧ immB.toInt ≤ 4094
  immB_even : immB.toInt % 2 = 0
  imm20_lt : imm20.toNat < 2 ^ 20
  immJ_range : -2 ^ 20 ≤ immJ.toInt ∧ immJ.toInt ≤ 2 ^ 20 - 2
  immJ_even : immJ.toInt % 2 = 0

/-- The format the ISA gives a kind. -/
def InstructionKind.format : InstructionKind → InstructionFormat
  | .invalid => .unknown
  | .add | .sub | .sll | .slt | .sltu | .xor | .srl | .sra | .or | .and => .r
  | .addi | .slti | .sltiu | .xori | .ori | .andi | .slli | .srli | .srai => .i
  | .lb | .lh | .lw | .lbu | .lhu | .jalr | .ecall | .ebreak => .i
  | .sb | .sh | .sw => .s
  | .beq | .bne | .blt | .bge | .bltu | .bgeu => .b
  | .lui | .auipc => .u
  | .jal => .j

/-- The formats with an `rd` field. -/
def InstructionFormat.hasRd : InstructionFormat → Bool
  | .r | .i | .u | .j => true
  | .unknown | .s | .b => false

/-- The formats with an `rs1` field. -/
def InstructionFormat.hasRs1 : InstructionFormat → Bool
  | .r | .i | .s | .b => true
  | .unknown | .u | .j => false

/-- The formats with an `rs2` field. -/
def InstructionFormat.hasRs2 : InstructionFormat → Bool
  | .r | .s | .b => true
  | .unknown | .i | .u | .j => false

namespace LegalOperands

/-- The word of a kind: its encoder, applied to the `opcode` and `funct` fields of
    the kind. The tests have no encoder for `ecall` and `ebreak`. -/
def encode (f : LegalOperands) : InstructionKind → Option Word
  | .invalid | .ecall | .ebreak => none
  | .add => some (encodeR 0x00 f.rs2 f.rs1 0x0 f.rd)
  | .sub => some (encodeR 0x20 f.rs2 f.rs1 0x0 f.rd)
  | .sll => some (encodeR 0x00 f.rs2 f.rs1 0x1 f.rd)
  | .slt => some (encodeR 0x00 f.rs2 f.rs1 0x2 f.rd)
  | .sltu => some (encodeR 0x00 f.rs2 f.rs1 0x3 f.rd)
  | .xor => some (encodeR 0x00 f.rs2 f.rs1 0x4 f.rd)
  | .srl => some (encodeR 0x00 f.rs2 f.rs1 0x5 f.rd)
  | .sra => some (encodeR 0x20 f.rs2 f.rs1 0x5 f.rd)
  | .or => some (encodeR 0x00 f.rs2 f.rs1 0x6 f.rd)
  | .and => some (encodeR 0x00 f.rs2 f.rs1 0x7 f.rd)
  | .addi => some (encodeI f.immI f.rs1 0x0 f.rd)
  | .slti => some (encodeI f.immI f.rs1 0x2 f.rd)
  | .sltiu => some (encodeI f.immI f.rs1 0x3 f.rd)
  | .xori => some (encodeI f.immI f.rs1 0x4 f.rd)
  | .ori => some (encodeI f.immI f.rs1 0x6 f.rd)
  | .andi => some (encodeI f.immI f.rs1 0x7 f.rd)
  | .slli => some (encodeShiftI 0x00 f.shamt f.rs1 0x1 f.rd)
  | .srli => some (encodeShiftI 0x00 f.shamt f.rs1 0x5 f.rd)
  | .srai => some (encodeShiftI 0x20 f.shamt f.rs1 0x5 f.rd)
  | .lb => some (encodeI f.immI f.rs1 0x0 f.rd 0x03)
  | .lh => some (encodeI f.immI f.rs1 0x1 f.rd 0x03)
  | .lw => some (encodeI f.immI f.rs1 0x2 f.rd 0x03)
  | .lbu => some (encodeI f.immI f.rs1 0x4 f.rd 0x03)
  | .lhu => some (encodeI f.immI f.rs1 0x5 f.rd 0x03)
  | .sb => some (encodeS f.immS f.rs2 f.rs1 0x0)
  | .sh => some (encodeS f.immS f.rs2 f.rs1 0x1)
  | .sw => some (encodeS f.immS f.rs2 f.rs1 0x2)
  | .beq => some (encodeB f.immB f.rs2 f.rs1 0x0)
  | .bne => some (encodeB f.immB f.rs2 f.rs1 0x1)
  | .blt => some (encodeB f.immB f.rs2 f.rs1 0x4)
  | .bge => some (encodeB f.immB f.rs2 f.rs1 0x5)
  | .bltu => some (encodeB f.immB f.rs2 f.rs1 0x6)
  | .bgeu => some (encodeB f.immB f.rs2 f.rs1 0x7)
  | .lui => some (encodeU f.imm20 f.rd 0x37)
  | .auipc => some (encodeU f.imm20 f.rd 0x17)
  | .jal => some (encodeJ f.immJ f.rd)
  | .jalr => some (encodeI f.immI f.rs1 0x0 f.rd 0x67)

/-- The immediate of a kind as 32 bits; the R format has none. -/
def immediate (f : LegalOperands) : InstructionKind → Option Word
  | .slli | .srli | .srai => some (f.shamt.setWidth 32)
  | .lui | .auipc => some (f.imm20 <<< 12)
  | kind => match kind.format with
    | .i => some f.immI
    | .s => some f.immS
    | .b => some f.immB
    | .j => some f.immJ
    | .r | .u | .unknown => none

/-- The operands cut down to their fields. -/
def fields (f : LegalOperands) : Operands :=
  { rd := f.rd.setWidth 5
    rs1 := f.rs1.setWidth 5
    rs2 := f.rs2.setWidth 5
    shamt := f.shamt.setWidth 5
    immI := f.immI.setWidth 12
    immS := f.immS.setWidth 12
    immB := f.immB.extractLsb' 1 12
    immU := f.imm20.setWidth 20
    immJ := f.immJ.extractLsb' 1 20 }

/-- Every encoder gives the encoding of the ISA. -/
theorem encode_eq {kind : InstructionKind} {i : Instr} (f : LegalOperands)
    (hi : kind.instr f.fields = some i) (hh : i.isHalt = false) :
    f.encode kind = some i.encode := by
  have hR (funct7 funct3 : BitVec 8) (h7 : funct7.toNat < 2 ^ 7) (h3 : funct3.toNat < 2 ^ 3) :=
    encodeR_eq h7 h3 f.rd_lt f.rs1_lt f.rs2_lt
  have hI (funct3 opcode : BitVec 8) (h3 : funct3.toNat < 2 ^ 3) (hop : opcode.toNat < 2 ^ 7) :=
    encodeI_eq f.immI h3 hop f.rd_lt f.rs1_lt
  have hShift (funct7 funct3 : BitVec 8) (h7 : funct7.toNat < 2 ^ 7) (h3 : funct3.toNat < 2 ^ 3) :
      encodeShiftI funct7 f.shamt f.rs1 funct3 f.rd = _ :=
    encodeShiftI_eq h7 h3 f.rd_lt f.rs1_lt
  have hS (funct3 : BitVec 8) (h3 : funct3.toNat < 2 ^ 3) :=
    encodeS_eq f.immS h3 f.rs1_lt f.rs2_lt
  have hB (funct3 : BitVec 8) (h3 : funct3.toNat < 2 ^ 3) :=
    encodeB_eq f.immB h3 f.rs1_lt f.rs2_lt
  have hU (opcode : BitVec 8) (hop : opcode.toNat < 2 ^ 7) := encodeU_eq f.imm20 hop f.rd_lt
  have hJ := encodeJ_eq f.immJ f.rd_lt
  cases kind with
  | invalid => cases hi
  | ecall | ebreak => cases hi; cases hh
  | add | sub | sll | slt | sltu | xor | srl | sra | or | and =>
    cases hi
    exact congrArg some (hR _ _ (by decide) (by decide))
  | addi | slti | sltiu | xori | ori | andi | lb | lh | lw | lbu | lhu | jalr =>
    cases hi
    exact congrArg some (hI _ _ (by decide) (by decide))
  | slli | srli | srai =>
    cases hi
    exact congrArg some (hShift _ _ (by decide) (by decide))
  | sb | sh | sw =>
    cases hi
    exact congrArg some (hS _ (by decide))
  | beq | bne | blt | bge | bltu | bgeu =>
    cases hi
    exact congrArg some (hB _ (by decide))
  | lui | auipc =>
    cases hi
    exact congrArg some (hU _ (by decide))
  | jal =>
    cases hi
    exact congrArg some hJ

end LegalOperands

/-! ## The ranges -/

/-- A number that fits into `n` signed bits is the sign extension of its low bits. -/
theorem signExtend_of_range {n : ℕ} {v : Word} (hn : n < 32) (h0 : -2 ^ n ≤ v.toInt)
    (h1 : v.toInt < 2 ^ n) : (v.setWidth (n + 1)).signExtend 32 = v := by
  have hbmod : v.toInt.bmod (2 ^ (n + 1)) = v.toInt := by
    apply Int.bmod_eq_of_le_mul_two <;> push_cast [pow_succ] <;> omega
  have hdvd : 2 ^ (n + 1) ∣ 2 ^ 32 := Nat.pow_dvd_pow 2 (by omega)
  apply BitVec.eq_of_toInt_eq
  calc ((v.setWidth (n + 1)).signExtend 32).toInt
      = (v.setWidth (n + 1)).toInt := BitVec.toInt_signExtend_of_le (by omega)
    _ = (v.toNat : ℤ).bmod (2 ^ (n + 1)) := BitVec.toInt_setWidth v
    _ = v.toInt.bmod (2 ^ (n + 1)) := by
      rw [BitVec.toInt_eq_toNat_bmod, Int.bmod_bmod_of_dvd hdvd]
    _ = v.toInt := hbmod

/-- An even number is its high part with a zero bit. -/
theorem append_of_even {n : ℕ} {v : Word} (h : v.toInt % 2 = 0) :
    v.extractLsb' 1 n ++ 0#1 = v.setWidth (n + 1) := by
  have hbit : v.getLsbD 0 = false := by
    rw [BitVec.toInt_eq_toNat_cond] at h
    rw [BitVec.getLsbD, Nat.testBit_zero]
    split at h <;> simp <;> omega
  apply BitVec.eq_of_getLsbD_eq
  intro i hi
  rw [BitVec.getLsbD_append, BitVec.getLsbD_setWidth]
  by_cases hi0 : i = 0
  · subst hi0
    rw [hbit]
    simp
  · simp [hi, hi0, show i - 1 < n by omega, show 1 + (i - 1) = i by omega]

namespace LegalOperands

variable (f : LegalOperands)

theorem signExtend_immI : (f.immI.setWidth 12).signExtend 32 = f.immI :=
  signExtend_of_range (n := 11) (by omega) f.immI_range.1 (by have := f.immI_range.2; omega)

theorem signExtend_immS : (f.immS.setWidth 12).signExtend 32 = f.immS :=
  signExtend_of_range (n := 11) (by omega) f.immS_range.1 (by have := f.immS_range.2; omega)

theorem branchOffset_immB : branchOffset (f.immB.extractLsb' 1 12) = f.immB := by
  rw [branchOffset, append_of_even f.immB_even]
  exact signExtend_of_range (n := 12) (by omega) f.immB_range.1 (by have := f.immB_range.2; omega)

theorem jumpOffset_immJ : jumpOffset (f.immJ.extractLsb' 1 20) = f.immJ := by
  rw [jumpOffset, append_of_even f.immJ_even]
  exact signExtend_of_range (n := 20) (by omega) f.immJ_range.1 (by have := f.immJ_range.2; omega)

theorem append_imm20 : f.imm20.setWidth 20 ++ 0#12 = f.imm20 <<< 12 := by
  apply BitVec.eq_of_getLsbD_eq
  intro i hi
  rw [BitVec.getLsbD_append, BitVec.getLsbD_shiftLeft]
  by_cases h : i < 12
  · simp [h]
  · simp [h, hi, show i - 12 < 20 by omega]

theorem setWidth_shamt : (f.shamt.setWidth 5).setWidth 32 = f.shamt.setWidth 32 :=
  (setWidth_field f.shamt_lt).symm

/-- The decoder's immediate of an instruction built from `f`. -/
theorem immediate_eq {kind : InstructionKind} {i : Instr} {imm : Word}
    (hi : kind.instr f.fields = some i) (himm : f.immediate kind = some imm)
    (hh : i.isHalt = false) : i.immediate = imm := by
  cases kind with
  | invalid => cases hi
  | ecall | ebreak => cases hi; cases hh
  | add | sub | sll | slt | sltu | xor | srl | sra | or | and => cases himm
  | addi | slti | sltiu | xori | ori | andi | lb | lh | lw | lbu | lhu | jalr =>
    cases hi
    cases himm
    exact f.signExtend_immI
  | slli | srli | srai =>
    cases hi
    cases himm
    exact f.setWidth_shamt
  | sb | sh | sw =>
    cases hi
    cases himm
    exact f.signExtend_immS
  | beq | bne | blt | bge | bltu | bgeu =>
    cases hi
    cases himm
    exact f.branchOffset_immB
  | lui | auipc =>
    cases hi
    cases himm
    exact f.append_imm20
  | jal =>
    cases hi
    cases himm
    exact f.jumpOffset_immJ

/-- Cutting a legal register number down to its field loses nothing. -/
theorem setWidth_reg {r : BitVec 8} (h : r.toNat < 32) : (r.setWidth 5).setWidth 8 = r := by
  apply BitVec.eq_of_toNat_eq
  rw [BitVec.toNat_setWidth, BitVec.toNat_setWidth, Nat.mod_eq_of_lt h, Nat.mod_eq_of_lt r.isLt]

end LegalOperands

/-! ## Decoding undoes encoding -/

/-- `d` says `kind` and the operands `f`, as far as the format of `kind` has them. -/
structure DecodedInstruction.Says (d : DecodedInstruction) (kind : InstructionKind)
    (f : LegalOperands) : Prop where
  kind_eq : d.kind = kind
  rd : kind.format.hasRd = true → d.rd.setWidth 8 = f.rd
  rs1 : kind.format.hasRs1 = true → d.rs1.setWidth 8 = f.rs1
  rs2 : kind.format.hasRs2 = true → d.rs2.setWidth 8 = f.rs2
  immediate : ∀ imm, f.immediate kind = some imm → d.immediate = imm

/-- Two operand tuples that give the same instruction agree on the registers of
    its format. -/
theorem InstructionKind.instr_regs {kind : InstructionKind} {a b : Operands} {i : Instr}
    (ha : kind.instr a = some i) (hb : kind.instr b = some i) (hh : i.isHalt = false) :
    (kind.format.hasRd = true → a.rd = b.rd) ∧
      (kind.format.hasRs1 = true → a.rs1 = b.rs1) ∧
      (kind.format.hasRs2 = true → a.rs2 = b.rs2) := by
  cases kind <;> cases ha <;> simp_all [InstructionKind.instr, InstructionKind.format,
    InstructionFormat.hasRd, InstructionFormat.hasRs1, InstructionFormat.hasRs2, Instr.isHalt]

/-- **Decoding undoes encoding**, for every kind with an encoder and all operands
    within their ranges. -/
theorem decode_encode {kind : InstructionKind} (f : LegalOperands)
    (hkind : kind ≠ .invalid ∧ kind ≠ .ecall ∧ kind ≠ .ebreak) :
    ∃ w, f.encode kind = some w ∧ (decodeInstruction w).Says kind f := by
  obtain ⟨i, hi⟩ : ∃ i, kind.instr f.fields = some i := by
    rw [← Option.isSome_iff_exists, ← Option.ne_none_iff_isSome, Ne, InstructionKind.instr_eq_none]
    exact hkind.1
  have hh : i.isHalt = false := by
    cases kind <;> cases hi <;> first | rfl | simp at hkind
  have hinstr := instrOf_encode i
  have hrec := (decodesTo_of_instrOf hinstr).record
  have hik : i.kind = kind := by
    cases kind <;> cases hi <;> rfl
  have hk : (decodeInstruction i.encode).kind = kind := by rw [hrec, ← hik]
  have hrd : (decodeInstruction i.encode).rd = rdOf i.encode := by rw [hrec]; exact extractRd_eq _
  have hrs1 : (decodeInstruction i.encode).rs1 = rs1Of i.encode := by
    rw [hrec]; exact extractRs1_eq _
  have hrs2 : (decodeInstruction i.encode).rs2 = rs2Of i.encode := by
    rw [hrec]; exact extractRs2_eq _
  rw [instrOf_eq, hk] at hinstr
  obtain ⟨h1, h2, h3⟩ := InstructionKind.instr_regs hinstr hi hh
  refine ⟨i.encode, f.encode_eq hi hh, hk, fun h => ?_, fun h => ?_, fun h => ?_, fun imm h => ?_⟩
  · rw [hrd]
    exact (congrArg (·.setWidth 8) (h1 h)).trans (LegalOperands.setWidth_reg f.rd_lt)
  · rw [hrs1]
    exact (congrArg (·.setWidth 8) (h2 h)).trans (LegalOperands.setWidth_reg f.rs1_lt)
  · rw [hrs2]
    exact (congrArg (·.setWidth 8) (h3 h)).trans (LegalOperands.setWidth_reg f.rs2_lt)
  · rw [hrec]
    exact f.immediate_eq hi h hh

/-- Operands at the ends of their ranges. -/
def extremeOperands : LegalOperands :=
  { rd := 31, rs1 := 0, rs2 := 17, shamt := 31
    immI := -2048, immS := 2047, immB := -4096, imm20 := 0xFFFFF, immJ := 0xFFFFE
    rd_lt := by decide, rs1_lt := by decide, rs2_lt := by decide, shamt_lt := by decide
    immI_range := by decide, immS_range := by decide, immB_range := by decide
    immB_even := by decide, imm20_lt := by decide, immJ_range := by decide
    immJ_even := by decide }

/-- `blt x0, x17, -4096`. -/
theorem decode_encode_blt :
    ∃ w, extremeOperands.encode .blt = some w ∧ (decodeInstruction w).Says .blt extremeOperands :=
  decode_encode extremeOperands (by decide)

end RvPipeline
