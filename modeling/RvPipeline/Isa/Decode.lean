import RvPipeline.Isa.Format

/-!
# Decoding

`instrOf` is the instruction of a word by the formats of the ISA alone: the opcode says the
format, and the operation is the one with the function fields of the word.

The register fields of `ecall` and `ebreak` are zero in their encodings; the ISA reserves the
words with something else there. Here these are the same instructions, and `encodeLoose` is the
encoding with any registers in these two fields.

Results:

* `instrOf_encodeLoose`, `instrOf_encode`: an encoding is read back.
* `encodeLoose_of_instrOf`: a word is the encoding of its instruction.
-/

namespace RvPipeline.Isa

/-! ## Operations by their function fields -/

/-- The operation among `all` with the function fields `x`. -/
def byFunct {α β : Type} [DecidableEq β] (all : List α) (funct : α → β) (x : β) : Option α :=
  all.find? fun o => funct o = x

theorem funct_of_byFunct {α β : Type} [DecidableEq β] {all : List α} {funct : α → β} {x : β}
    {o : α} (h : byFunct all funct x = some o) : funct o = x :=
  of_decide_eq_true (@List.find?_some _ (fun o => decide (funct o = x)) _ _ h)

/-- The register-register operation with these `funct7` and `funct3`. -/
def RegOp.ofFunct (x : BitVec 7 × BitVec 3) : Option RegOp :=
  byFunct [.add, .sub, .sll, .slt, .sltu, .xor, .srl, .sra, .or, .and] RegOp.funct x

/-- The register-immediate operation with this `funct3`. -/
def ImmOp.ofFunct3 (x : BitVec 3) : Option ImmOp :=
  byFunct [.addi, .slti, .sltiu, .xori, .ori, .andi] ImmOp.funct3 x

/-- The immediate shift with these `imm[11:5]` and `funct3`. -/
def ShiftOp.ofFunct (x : BitVec 7 × BitVec 3) : Option ShiftOp :=
  byFunct [.slli, .srli, .srai] ShiftOp.funct x

/-- The load with this `funct3`. -/
def LoadOp.ofFunct3 (x : BitVec 3) : Option LoadOp :=
  byFunct [.lb, .lh, .lw, .lbu, .lhu] LoadOp.funct3 x

/-- The store with this `funct3`. -/
def StoreOp.ofFunct3 (x : BitVec 3) : Option StoreOp := byFunct [.sb, .sh, .sw] StoreOp.funct3 x

/-- The conditional branch with this `funct3`. -/
def BranchOp.ofFunct3 (x : BitVec 3) : Option BranchOp :=
  byFunct [.beq, .bne, .blt, .bge, .bltu, .bgeu] BranchOp.funct3 x

theorem RegOp.ofFunct_funct (o : RegOp) : ofFunct (o.funct.1, o.funct.2) = some o := by
  cases o <;> rfl

/-- No register-immediate operation has the function field of a shift. -/
theorem ImmOp.ofFunct3_shift (o : ShiftOp) : ofFunct3 o.funct.2 = none := by cases o <;> rfl

theorem ImmOp.ofFunct3_funct3 (o : ImmOp) : ofFunct3 o.funct3 = some o := by cases o <;> rfl

theorem ShiftOp.ofFunct_funct (o : ShiftOp) : ofFunct (o.funct.1, o.funct.2) = some o := by
  cases o <;> rfl

theorem LoadOp.ofFunct3_funct3 (o : LoadOp) : ofFunct3 o.funct3 = some o := by cases o <;> rfl

theorem StoreOp.ofFunct3_funct3 (o : StoreOp) : ofFunct3 o.funct3 = some o := by cases o <;> rfl

theorem BranchOp.ofFunct3_funct3 (o : BranchOp) : ofFunct3 o.funct3 = some o := by cases o <;> rfl

/-! ## The instruction of a word -/

/-- The instruction of a word, if it has one. -/
def instrOf (w : Word) : Option Instr :=
  let funct3 := w.extractLsb' 12 3
  let funct7 := w.extractLsb' 25 7
  match w.extractLsb' 0 7 with
  | 0x33#7 => (RegOp.ofFunct (funct7, funct3)).map (.op · (rdOf w) (rs1Of w) (rs2Of w))
  | 0x13#7 =>
    match ImmOp.ofFunct3 funct3 with
    | some o => some (.opImm o (rdOf w) (rs1Of w) (immI w))
    | none => (ShiftOp.ofFunct (funct7, funct3)).map (.shift · (rdOf w) (rs1Of w) (rs2Of w))
  | 0x03#7 => (LoadOp.ofFunct3 funct3).map (.load · (rdOf w) (rs1Of w) (immI w))
  | 0x23#7 => (StoreOp.ofFunct3 funct3).map (.store · (rs1Of w) (rs2Of w) (immS w))
  | 0x63#7 => (BranchOp.ofFunct3 funct3).map (.branch · (rs1Of w) (rs2Of w) (immB w))
  | 0x37#7 => some (.lui (rdOf w) (immU w))
  | 0x17#7 => some (.auipc (rdOf w) (immU w))
  | 0x6F#7 => some (.jal (rdOf w) (immJ w))
  | 0x67#7 => if funct3 = 0 then some (.jalr (rdOf w) (rs1Of w) (immI w)) else none
  | 0x73#7 =>
    if funct3 = 0 ∧ immI w = 0 then some .ecall
    else if funct3 = 0 ∧ immI w = 1 then some .ebreak
    else none
  | _ => none

/-- The encoding of an instruction, with `rd` and `rs1` in the register fields of `ecall` and
    `ebreak`. -/
def Instr.encodeLoose (rd rs1 : Reg) : Instr → Word
  | .ecall => iType 0 rs1 0 rd 0x73
  | .ebreak => iType 1 rs1 0 rd 0x73
  | i => i.encode

/-! ## An encoding is read back -/

/-- Nothing of the instruction is lost in its encoding. -/
theorem instrOf_encode (i : Instr) : instrOf i.encode = some i := by
  cases i with
  | op o rd rs1 rs2 =>
    rw [Instr.encode, instrOf]
    simp only [rType_opcode, rType_funct3, rType_funct7, rType_rd, rType_rs1, rType_rs2,
      RegOp.ofFunct_funct]
    rfl
  | opImm o rd rs1 imm =>
    rw [Instr.encode, instrOf, immI]
    simp only [iType_opcode, iType_funct3, iType_rd, iType_rs1, iType_imm, ImmOp.ofFunct3_funct3]
    rfl
  | shift o rd rs1 shamt =>
    have hfunct7 : (o.funct.1 ++ shamt).extractLsb' 5 7 = o.funct.1 :=
      (slice_of_high _ _ (by omega)).trans BitVec.extractLsb'_eq_self
    rw [Instr.encode, instrOf]
    simp only [iType_opcode, iType_funct3, iType_funct7, iType_rd, iType_rs1, iType_shamt, hfunct7,
      ImmOp.ofFunct3_shift, ShiftOp.ofFunct_funct]
    rfl
  | load o rd rs1 imm =>
    rw [Instr.encode, instrOf, immI]
    simp only [iType_opcode, iType_funct3, iType_rd, iType_rs1, iType_imm, LoadOp.ofFunct3_funct3]
    rfl
  | store o rs1 rs2 imm =>
    rw [Instr.encode, instrOf]
    simp only [sType_opcode, sType_funct3, sType_rs1, sType_rs2, sType_imm,
      StoreOp.ofFunct3_funct3]
    rfl
  | branch o rs1 rs2 offset =>
    rw [Instr.encode, instrOf]
    simp only [bType_opcode, bType_funct3, bType_rs1, bType_rs2, bType_imm,
      BranchOp.ofFunct3_funct3]
    rfl
  | lui rd imm | auipc rd imm =>
    rw [Instr.encode, instrOf]
    simp only [uType_opcode, uType_rd, uType_imm]
    rfl
  | jal rd offset =>
    rw [Instr.encode, instrOf]
    simp only [jType_opcode, jType_rd, jType_imm]
    rfl
  | jalr rd rs1 imm =>
    rw [Instr.encode, instrOf, immI]
    simp only [iType_opcode, iType_funct3, iType_rd, iType_rs1, iType_imm]
    rfl
  | ecall => rfl
  | ebreak => rfl

/-- Nor in one with something in the register fields of `ecall` and `ebreak`. -/
theorem instrOf_encodeLoose (rd rs1 : Reg) (i : Instr) :
    instrOf (i.encodeLoose rd rs1) = some i := by
  cases i with
  | ecall | ebreak =>
    rw [Instr.encodeLoose, instrOf, immI]
    simp only [iType_opcode, iType_funct3, iType_imm]
    rfl
  | _ => exact instrOf_encode _

/-! ## A word is an encoding -/

section

variable {w : Word}

theorem encode_op (o : RegOp) (hop : w.extractLsb' 0 7 = 0x33)
    (h : w.extractLsb' 12 3 = o.funct.2 ∧ w.extractLsb' 25 7 = o.funct.1) :
    (Instr.op o (rdOf w) (rs1Of w) (rs2Of w)).encode = w := by
  rw [Instr.encode, ← h.1, ← h.2, ← hop]
  exact rType_fields w

theorem encode_opImm (o : ImmOp) (hop : w.extractLsb' 0 7 = 0x13)
    (h : w.extractLsb' 12 3 = o.funct3) :
    (Instr.opImm o (rdOf w) (rs1Of w) (immI w)).encode = w := by
  rw [Instr.encode, ← h, ← hop]
  exact iType_fields w

theorem encode_shift (o : ShiftOp) (hop : w.extractLsb' 0 7 = 0x13)
    (h : w.extractLsb' 12 3 = o.funct.2 ∧ w.extractLsb' 25 7 = o.funct.1) :
    (Instr.shift o (rdOf w) (rs1Of w) (rs2Of w)).encode = w := by
  have himm : o.funct.1 ++ rs2Of w = immI w := by
    rw [← h.2]
    exact BitVec.extractLsb'_append_extractLsb'_eq_extractLsb' (show 25 = 20 + 5 by rfl)
  rw [Instr.encode, himm, ← h.1, ← hop]
  exact iType_fields w

theorem encode_load (o : LoadOp) (hop : w.extractLsb' 0 7 = 0x03)
    (h : w.extractLsb' 12 3 = o.funct3) :
    (Instr.load o (rdOf w) (rs1Of w) (immI w)).encode = w := by
  rw [Instr.encode, ← h, ← hop]
  exact iType_fields w

theorem encode_store (o : StoreOp) (hop : w.extractLsb' 0 7 = 0x23)
    (h : w.extractLsb' 12 3 = o.funct3) :
    (Instr.store o (rs1Of w) (rs2Of w) (immS w)).encode = w := by
  rw [Instr.encode, ← h, ← hop]
  exact sType_fields w

theorem encode_branch (o : BranchOp) (hop : w.extractLsb' 0 7 = 0x63)
    (h : w.extractLsb' 12 3 = o.funct3) :
    (Instr.branch o (rs1Of w) (rs2Of w) (immB w)).encode = w := by
  rw [Instr.encode, ← h, ← hop]
  exact bType_fields w

theorem encode_lui (hop : w.extractLsb' 0 7 = 0x37) : (Instr.lui (rdOf w) (immU w)).encode = w := by
  rw [Instr.encode, ← hop]
  exact uType_fields w

theorem encode_auipc (hop : w.extractLsb' 0 7 = 0x17) :
    (Instr.auipc (rdOf w) (immU w)).encode = w := by
  rw [Instr.encode, ← hop]
  exact uType_fields w

theorem encode_jal (hop : w.extractLsb' 0 7 = 0x6F) : (Instr.jal (rdOf w) (immJ w)).encode = w := by
  rw [Instr.encode, ← hop]
  exact jType_fields w

theorem encode_jalr (hop : w.extractLsb' 0 7 = 0x67) (h : w.extractLsb' 12 3 = 0) :
    (Instr.jalr (rdOf w) (rs1Of w) (immI w)).encode = w := by
  rw [Instr.encode, ← h, ← hop]
  exact iType_fields w

theorem encodeLoose_system {imm : BitVec 12} (hop : w.extractLsb' 0 7 = 0x73)
    (h : w.extractLsb' 12 3 = 0) (himm : immI w = imm) :
    iType imm (rs1Of w) 0 (rdOf w) 0x73 = w := by
  rw [← h, ← hop, ← himm]
  exact iType_fields w

/-- The instructions of a word, format by format: its operands are the fields of the word, and
    the word is its encoding. -/
theorem encodeLoose_of_instrOf {i : Instr} (h : instrOf w = some i) :
    i.encodeLoose (rdOf w) (rs1Of w) = w := by
  unfold instrOf at h
  dsimp only at h
  split at h
  next hop =>
    obtain ⟨o, ho, rfl⟩ := Option.map_eq_some_iff.mp h
    have hfunct := Prod.ext_iff.mp (funct_of_byFunct ho)
    exact encode_op o hop ⟨hfunct.2.symm, hfunct.1.symm⟩
  next hop =>
    split at h
    next o ho =>
      cases h
      exact encode_opImm o hop (funct_of_byFunct ho).symm
    next =>
      obtain ⟨o, ho, rfl⟩ := Option.map_eq_some_iff.mp h
      have hfunct := Prod.ext_iff.mp (funct_of_byFunct ho)
      exact encode_shift o hop ⟨hfunct.2.symm, hfunct.1.symm⟩
  next hop =>
    obtain ⟨o, ho, rfl⟩ := Option.map_eq_some_iff.mp h
    exact encode_load o hop (funct_of_byFunct ho).symm
  next hop =>
    obtain ⟨o, ho, rfl⟩ := Option.map_eq_some_iff.mp h
    exact encode_store o hop (funct_of_byFunct ho).symm
  next hop =>
    obtain ⟨o, ho, rfl⟩ := Option.map_eq_some_iff.mp h
    exact encode_branch o hop (funct_of_byFunct ho).symm
  next hop =>
    cases h
    exact encode_lui hop
  next hop =>
    cases h
    exact encode_auipc hop
  next hop =>
    cases h
    exact encode_jal hop
  next hop =>
    split at h
    next hfunct3 =>
      cases h
      exact encode_jalr hop hfunct3
    next => cases h
  next hop =>
    split at h
    next hsystem =>
      cases h
      exact encodeLoose_system hop hsystem.1 hsystem.2
    next =>
      split at h
      next hsystem =>
        cases h
        exact encodeLoose_system hop hsystem.1 hsystem.2
      next => cases h
  next => cases h

end

end RvPipeline.Isa
