import RvPipeline.Isa.Memory

/-!
# RV32I instructions and their encoding

The user-level RV32I instructions without `fence`: ten register-register
operations, nine register-immediate operations, five loads, three stores, six
branches, `lui`, `auipc`, `jal`, `jalr`, `ecall` and `ebreak`. Operands carry
their encoded width (an immediate that does not fit cannot be written down);
branch and jump offsets are stored without their bit 0, which is always zero.

The second half is the base encoding: the six formats and the word of every
instruction, and the operand fields read back from a word.
-/

namespace RvPipeline.Isa

/-- A register number `x0 … x31`. -/
abbrev Reg := BitVec 5

/-! ## Syntax -/

/-- The register-register operations. -/
inductive RegOp
  | add | sub | sll | slt | sltu | xor | srl | sra | or | and
  deriving DecidableEq, Repr

/-- The register-immediate operations with a 12-bit immediate. -/
inductive ImmOp
  | addi | slti | sltiu | xori | ori | andi
  deriving DecidableEq, Repr

/-- The register-immediate shifts, with a 5-bit shift amount. -/
inductive ShiftOp
  | slli | srli | srai
  deriving DecidableEq, Repr

/-- The loads. -/
inductive LoadOp
  | lb | lh | lw | lbu | lhu
  deriving DecidableEq, Repr

/-- The stores. -/
inductive StoreOp
  | sb | sh | sw
  deriving DecidableEq, Repr

/-- The conditional branches. -/
inductive BranchOp
  | beq | bne | blt | bge | bltu | bgeu
  deriving DecidableEq, Repr

/-- An RV32I instruction. -/
inductive Instr
  | op (o : RegOp) (rd rs1 rs2 : Reg)
  | opImm (o : ImmOp) (rd rs1 : Reg) (imm : BitVec 12)
  | shift (o : ShiftOp) (rd rs1 : Reg) (shamt : BitVec 5)
  | load (o : LoadOp) (rd rs1 : Reg) (imm : BitVec 12)
  | store (o : StoreOp) (rs1 rs2 : Reg) (imm : BitVec 12)
  | branch (o : BranchOp) (rs1 rs2 : Reg) (offset : BitVec 12)
  | lui (rd : Reg) (imm : BitVec 20)
  | auipc (rd : Reg) (imm : BitVec 20)
  | jal (rd : Reg) (offset : BitVec 20)
  | jalr (rd rs1 : Reg) (imm : BitVec 12)
  | ecall
  | ebreak
  deriving DecidableEq, Repr

/-! ## The six formats -/

/-- `funct7 | rs2 | rs1 | funct3 | rd | opcode`. -/
def rType (funct7 : BitVec 7) (rs2 rs1 : Reg) (funct3 : BitVec 3) (rd : Reg)
    (opcode : BitVec 7) : Word :=
  funct7 ++ rs2 ++ rs1 ++ funct3 ++ rd ++ opcode

/-- `imm[11:0] | rs1 | funct3 | rd | opcode`. -/
def iType (imm : BitVec 12) (rs1 : Reg) (funct3 : BitVec 3) (rd : Reg)
    (opcode : BitVec 7) : Word :=
  imm ++ rs1 ++ funct3 ++ rd ++ opcode

/-- `imm[11:5] | rs2 | rs1 | funct3 | imm[4:0] | opcode`. -/
def sType (imm : BitVec 12) (rs2 rs1 : Reg) (funct3 : BitVec 3) (opcode : BitVec 7) : Word :=
  imm.extractLsb' 5 7 ++ rs2 ++ rs1 ++ funct3 ++ imm.extractLsb' 0 5 ++ opcode

/-- `imm[12] | imm[10:5] | rs2 | rs1 | funct3 | imm[4:1] | imm[11] | opcode`; `offset` is
    `imm[12:1]`. -/
def bType (offset : BitVec 12) (rs2 rs1 : Reg) (funct3 : BitVec 3) (opcode : BitVec 7) : Word :=
  offset.extractLsb' 11 1 ++ offset.extractLsb' 4 6 ++ rs2 ++ rs1 ++ funct3 ++
    offset.extractLsb' 0 4 ++ offset.extractLsb' 10 1 ++ opcode

/-- `imm[31:12] | rd | opcode`. -/
def uType (imm : BitVec 20) (rd : Reg) (opcode : BitVec 7) : Word :=
  imm ++ rd ++ opcode

/-- `imm[20] | imm[10:1] | imm[11] | imm[19:12] | rd | opcode`; `offset` is `imm[20:1]`. -/
def jType (offset : BitVec 20) (rd : Reg) (opcode : BitVec 7) : Word :=
  offset.extractLsb' 19 1 ++ offset.extractLsb' 0 10 ++ offset.extractLsb' 10 1 ++
    offset.extractLsb' 11 8 ++ rd ++ opcode

/-! ## The encoding of every instruction -/

/-- `funct7` and `funct3` of a register-register operation. -/
def RegOp.funct : RegOp → BitVec 7 × BitVec 3
  | .add => (0x00, 0) | .sub => (0x20, 0) | .sll => (0x00, 1) | .slt => (0x00, 2)
  | .sltu => (0x00, 3) | .xor => (0x00, 4) | .srl => (0x00, 5) | .sra => (0x20, 5)
  | .or => (0x00, 6) | .and => (0x00, 7)

/-- `funct3` of a register-immediate operation. -/
def ImmOp.funct3 : ImmOp → BitVec 3
  | .addi => 0 | .slti => 2 | .sltiu => 3 | .xori => 4 | .ori => 6 | .andi => 7

/-- `imm[11:5]` and `funct3` of an immediate shift. -/
def ShiftOp.funct : ShiftOp → BitVec 7 × BitVec 3
  | .slli => (0x00, 1) | .srli => (0x00, 5) | .srai => (0x20, 5)

/-- `funct3` of a load. -/
def LoadOp.funct3 : LoadOp → BitVec 3
  | .lb => 0 | .lh => 1 | .lw => 2 | .lbu => 4 | .lhu => 5

/-- `funct3` of a store. -/
def StoreOp.funct3 : StoreOp → BitVec 3
  | .sb => 0 | .sh => 1 | .sw => 2

/-- `funct3` of a conditional branch. -/
def BranchOp.funct3 : BranchOp → BitVec 3
  | .beq => 0 | .bne => 1 | .blt => 4 | .bge => 5 | .bltu => 6 | .bgeu => 7

/-- The word of an instruction. -/
def Instr.encode : Instr → Word
  | .op o rd rs1 rs2 => rType o.funct.1 rs2 rs1 o.funct.2 rd 0x33
  | .opImm o rd rs1 imm => iType imm rs1 o.funct3 rd 0x13
  | .shift o rd rs1 shamt => iType (o.funct.1 ++ shamt) rs1 o.funct.2 rd 0x13
  | .load o rd rs1 imm => iType imm rs1 o.funct3 rd 0x03
  | .store o rs1 rs2 imm => sType imm rs2 rs1 o.funct3 0x23
  | .branch o rs1 rs2 offset => bType offset rs2 rs1 o.funct3 0x63
  | .lui rd imm => uType imm rd 0x37
  | .auipc rd imm => uType imm rd 0x17
  | .jal rd offset => jType offset rd 0x6F
  | .jalr rd rs1 imm => iType imm rs1 0 rd 0x67
  | .ecall => 0x00000073
  | .ebreak => 0x00100073

/-! ## Operand fields of a word -/

/-- The `rd` field. -/
def rdOf (w : Word) : Reg := w.extractLsb' 7 5

/-- The `rs1` field. -/
def rs1Of (w : Word) : Reg := w.extractLsb' 15 5

/-- The `rs2` field; also the shift amount of an immediate shift. -/
def rs2Of (w : Word) : Reg := w.extractLsb' 20 5

/-- The I-format immediate. -/
def immI (w : Word) : BitVec 12 := w.extractLsb' 20 12

/-- The S-format immediate. -/
def immS (w : Word) : BitVec 12 := w.extractLsb' 25 7 ++ w.extractLsb' 7 5

/-- Bits `12 … 1` of the B-format immediate. -/
def immB (w : Word) : BitVec 12 :=
  w.extractLsb' 31 1 ++ w.extractLsb' 7 1 ++ w.extractLsb' 25 6 ++ w.extractLsb' 8 4

/-- Bits `31 … 12` of the U-format immediate. -/
def immU (w : Word) : BitVec 20 := w.extractLsb' 12 20

/-- Bits `20 … 1` of the J-format immediate. -/
def immJ (w : Word) : BitVec 20 :=
  w.extractLsb' 31 1 ++ w.extractLsb' 12 8 ++ w.extractLsb' 20 1 ++ w.extractLsb' 21 10

end RvPipeline.Isa
