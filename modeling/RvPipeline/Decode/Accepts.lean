import RvPipeline.Decode.Kinds

/-!
# Which words are accepted

The words `decodeInstruction` accepts, compared with the encodings of the
instructions listed in the README. Every encoding is accepted, and every
accepted word is an encoding and is put together again from the decoded fields,
with one exception: `case kOpcodeSystem` does not look at `rd` and `rs1`.
-/

namespace RvPipeline

open Isa

/-! ## Putting a word together from its decoded fields -/

/-- The operands of a decoded record. -/
def Operands.ofDecoded (d : DecodedInstruction) : Operands :=
  { rd := d.rd
    rs1 := d.rs1
    rs2 := d.rs2
    shamt := d.immediate.setWidth 5
    immI := d.immediate.setWidth 12
    immS := d.immediate.setWidth 12
    immB := d.immediate.extractLsb' 1 12
    immU := d.immediate.extractLsb' 12 20
    immJ := d.immediate.extractLsb' 1 20 }

/-- The word with the decoded kind, registers and immediate in the format of the
    kind. -/
def reencode (d : DecodedInstruction) : Option Word :=
  (d.kind.instr (.ofDecoded d)).map (·.encodeLoose d.rd d.rs1)

theorem slice_branchOffset (offset : BitVec 12) :
    (branchOffset offset).extractLsb' 1 12 = offset := by
  apply BitVec.eq_of_getLsbD_eq
  intro i hi
  rw [BitVec.getLsbD_extractLsb', branchOffset, BitVec.getLsbD_signExtend]
  rw [if_pos (by omega : 1 + i < 12 + 1), BitVec.getLsbD_append]
  simp [hi, show 1 + i < 32 by omega]

theorem slice_jumpOffset (offset : BitVec 20) :
    (jumpOffset offset).extractLsb' 1 20 = offset := by
  apply BitVec.eq_of_getLsbD_eq
  intro i hi
  rw [BitVec.getLsbD_extractLsb', jumpOffset, BitVec.getLsbD_signExtend]
  rw [if_pos (by omega : 1 + i < 20 + 1), BitVec.getLsbD_append]
  simp [hi, show 1 + i < 32 by omega]

theorem slice_upper (imm : BitVec 20) : (imm ++ 0#12).extractLsb' 12 20 = imm :=
  (slice_of_high _ _ (by omega)).trans BitVec.extractLsb'_eq_self

/-- Nothing of the operands is lost in the decoded record. -/
theorem instr_ofDecoded {w : Word} {i : Instr} (h : instrOf w = some i) :
    (decodeInstruction w).kind.instr (.ofDecoded (decodeInstruction w)) = some i := by
  have hrec := (decodesTo_of_instrOf h).record
  have hrd : (decodeInstruction w).rd = rdOf w := by rw [hrec]; exact extractRd_eq w
  have hrs1 : (decodeInstruction w).rs1 = rs1Of w := by rw [hrec]; exact extractRs1_eq w
  have hrs2 : (decodeInstruction w).rs2 = rs2Of w := by rw [hrec]; exact extractRs2_eq w
  have himm : (decodeInstruction w).immediate = i.immediate := by rw [hrec]
  rw [instrOf_eq] at h
  generalize (decodeInstruction w).kind = kind at h ⊢
  cases kind <;> cases h <;>
    simp [InstructionKind.instr, Operands.ofDecoded, Operands.ofWord, hrd, hrs1, hrs2, himm,
      Instr.immediate, setWidth_signExtend, slice_branchOffset, slice_jumpOffset, slice_upper]

/-! ## Every encoding is accepted -/

theorem isValidInstruction_iff {w : Word} :
    isValidInstruction (decodeInstruction w) = true ↔ ∃ i, instrOf w = some i := by
  rw [← Option.isSome_iff_exists, ← Option.ne_none_iff_isSome, Ne, instrOf_eq_none]
  simp

theorem isValidInstruction_encode (i : Instr) :
    isValidInstruction (decodeInstruction i.encode) = true :=
  isValidInstruction_of_instrOf (instrOf_encode i)

/-! ## The words of `ecall` and `ebreak` -/

/-- The word of a system instruction with something in a register field that
    the ISA wants to be zero. -/
def SystemWithRegisters (w : Word) : Prop :=
  w.extractLsb' 0 7 = 0x73 ∧ w.extractLsb' 12 3 = 0 ∧ (immI w = 0 ∨ immI w = 1) ∧
    (rdOf w ≠ 0 ∨ rs1Of w ≠ 0)

instance (w : Word) : Decidable (SystemWithRegisters w) := inferInstanceAs (Decidable (_ ∧ _))

theorem opcode_encode_of_not_halt {i : Instr} (h : i.isHalt = false) :
    i.encode.extractLsb' 0 7 ≠ 0x73 := by
  cases i with
  | op o rd rs1 rs2 => rw [Instr.encode, rType_opcode]; decide
  | opImm o rd rs1 imm => rw [Instr.encode, iType_opcode]; decide
  | shift o rd rs1 shamt => rw [Instr.encode, iType_opcode]; decide
  | load o rd rs1 imm => rw [Instr.encode, iType_opcode]; decide
  | store o rs1 rs2 imm => rw [Instr.encode, sType_opcode]; decide
  | branch o rs1 rs2 offset => rw [Instr.encode, bType_opcode]; decide
  | lui rd imm => rw [Instr.encode, uType_opcode]; decide
  | auipc rd imm => rw [Instr.encode, uType_opcode]; decide
  | jal rd offset => rw [Instr.encode, jType_opcode]; decide
  | jalr rd rs1 imm => rw [Instr.encode, iType_opcode]; decide
  | ecall => cases h
  | ebreak => cases h

/-- A system word with something in a register field is no encoding. -/
theorem SystemWithRegisters.not_encode {w : Word} (h : SystemWithRegisters w) (i : Instr) :
    i.encode ≠ w := by
  rintro rfl
  obtain ⟨hop, -, -, hr⟩ := h
  cases hh : i.isHalt with
  | false => exact opcode_encode_of_not_halt hh hop
  | true =>
    revert hr
    cases i with
    | ecall => decide
    | ebreak => decide
    | _ => cases hh

/-- Yet it is accepted. -/
theorem SystemWithRegisters.isValid {w : Word} (h : SystemWithRegisters w) :
    isValidInstruction (decodeInstruction w) = true := by
  obtain ⟨hop, hfunct3, himm, -⟩ := h
  refine isValidInstruction_iff.mpr ?_
  rcases himm with himm | himm
  · have hw : Instr.ecall.encodeLoose (rdOf w) (rs1Of w) = w := encodeLoose_system hop hfunct3 himm
    exact ⟨.ecall, by rw [← hw, instrOf_encodeLoose]⟩
  · have hw : Instr.ebreak.encodeLoose (rdOf w) (rs1Of w) = w :=
      encodeLoose_system hop hfunct3 himm
    exact ⟨.ebreak, by rw [← hw, instrOf_encodeLoose]⟩

/-- An accepted word that is no such system word is the encoding of its instruction. -/
theorem encode_of_instrOf {w : Word} {i : Instr} (h : instrOf w = some i)
    (hs : ¬ SystemWithRegisters w) : i.encode = w := by
  have henc := encodeLoose_of_instrOf h
  have hregs : ∀ imm : BitVec 12, imm = 0 ∨ imm = 1 → iType imm (rs1Of w) 0 (rdOf w) 0x73 = w →
      rs1Of w = 0 ∧ rdOf w = 0 := by
    intro imm himm hw
    by_contra hne
    apply hs
    refine ⟨?_, ?_, ?_, ?_⟩
    · rw [← hw, iType_opcode]
    · rw [← hw, iType_funct3]
    · rw [immI, ← hw, iType_imm]; exact himm
    · tauto
  cases i with
  | ecall =>
    obtain ⟨h1, h2⟩ := hregs 0 (Or.inl rfl) henc
    rw [← henc, h1, h2]
    rfl
  | ebreak =>
    obtain ⟨h1, h2⟩ := hregs 1 (Or.inr rfl) henc
    rw [← henc, h1, h2]
    rfl
  | _ => exact henc

/-! ## The decoder and the documented instructions -/

/-- `w` is accepted exactly if it encodes an instruction, and then its decoded
    fields make up `w` again. -/
def DecodedAsDocumented (w : Word) : Prop :=
  (isValidInstruction (decodeInstruction w) = true ↔ ∃ i : Instr, i.encode = w) ∧
    (isValidInstruction (decodeInstruction w) = true → reencode (decodeInstruction w) = some w)

/-- **The decoder accepts its documented instructions**, and nothing else but
    `ecall` and `ebreak` words with something in a register field. -/
theorem decodedAsDocumented_iff (w : Word) :
    DecodedAsDocumented w ↔ ¬ SystemWithRegisters w := by
  constructor
  · rintro ⟨hacc, -⟩ hs
    obtain ⟨i, hi⟩ := hacc.mp hs.isValid
    exact hs.not_encode i hi
  · intro hs
    refine ⟨⟨fun hv => ?_, ?_⟩, fun hv => ?_⟩
    · obtain ⟨i, hi⟩ := isValidInstruction_iff.mp hv
      exact ⟨i, encode_of_instrOf hi hs⟩
    · rintro ⟨i, rfl⟩
      exact isValidInstruction_encode i
    · obtain ⟨i, hi⟩ := isValidInstruction_iff.mp hv
      have hrec := decodesTo_of_instrOf hi
      have hrd : (decodeInstruction w).rd = rdOf w := by rw [hrec.record]; exact extractRd_eq w
      have hrs1 : (decodeInstruction w).rs1 = rs1Of w := by rw [hrec.record]; exact extractRs1_eq w
      rw [reencode, instr_ofDecoded hi, Option.map_some, hrd, hrs1, hrec.encodes rfl]

/-- `0x000000F3`, an `ecall` word with `rd = x1`, is accepted but is no encoding. -/
theorem not_decodedAsDocumented_ecall_rd : ¬ DecodedAsDocumented 0x000000F3 := by
  rintro ⟨hacc, -⟩
  obtain ⟨i, hi⟩ := hacc.mp (by decide +kernel)
  exact SystemWithRegisters.not_encode (by decide +kernel) i hi

end RvPipeline
