import RvPipeline.Model.Decoder

/-!
# Instruction decoding

Model of `include/instruction.hpp`, `src/instruction.cpp` and the enumerations
of `include/pipeline_registers.hpp`. `decodeInstruction` is the source's
`switch` on the opcode; each of its ten arms is a definition of its own.
-/

namespace RvPipeline

open Isa (Word Reg)

/-! ## Enumerations and control signals -/

/-- `enum class InstructionFormat` (`include/pipeline_registers.hpp`, lines 7–15). -/
inductive InstructionFormat
  | unknown | r | i | s | b | u | j
  deriving DecidableEq, Repr

/-- `enum class ALUOp` (lines 17–29). -/
inductive ALUOp
  | none | add | sub | and | or | xor | sll | srl | sra | slt | sltu
  deriving DecidableEq, Repr

/-- `enum class WritebackSource` (lines 31–37). -/
inductive WritebackSource
  | none | alu | memory | pcPlus4 | immediate
  deriving DecidableEq, Repr

/-- `enum class BranchCondition` (lines 39–47). -/
inductive BranchCondition
  | none | equal | notEqual | lessThan | greaterOrEqual | lessThanUnsigned
  | greaterOrEqualUnsigned
  deriving DecidableEq, Repr

/-- `enum class MemoryAccessWidth` (lines 49–54). -/
inductive MemoryAccessWidth
  | none | byte | halfWord | word
  deriving DecidableEq, Repr

/-- `struct ControlSignals` (lines 56–71). -/
structure ControlSignals where
  regWrite : Bool := false
  memRead : Bool := false
  memWrite : Bool := false
  branch : Bool := false
  jump : Bool := false
  aluSrcPc : Bool := false
  aluSrcImm : Bool := false
  memUnsigned : Bool := false
  halt : Bool := false
  aluOp : ALUOp := .none
  writebackSource : WritebackSource := .none
  branchCondition : BranchCondition := .none
  memoryWidth : MemoryAccessWidth := .none
  deriving DecidableEq, Repr

/-- `enum class InstructionKind` (`include/instruction.hpp`, lines 9–50). -/
inductive InstructionKind
  | invalid
  | add | sub | sll | slt | sltu | xor | srl | sra | or | and
  | addi | slti | sltiu | xori | ori | andi | slli | srli | srai
  | lb | lh | lw | lbu | lhu
  | sb | sh | sw
  | beq | bne | blt | bge | bltu | bgeu
  | lui | auipc | jal | jalr | ecall | ebreak
  deriving DecidableEq, Repr

/-- `struct DecodedInstruction` (lines 52–66). -/
structure DecodedInstruction where
  kind : InstructionKind := .invalid
  format : InstructionFormat := .unknown
  raw : Word := 0
  opcode : BitVec 7 := 0
  rd : Reg := 0
  rs1 : Reg := 0
  rs2 : Reg := 0
  funct3 : BitVec 3 := 0
  funct7 : BitVec 7 := 0
  immediate : Word := 0
  control : ControlSignals := {}
  deriving DecidableEq, Repr

/-- `is_valid_instruction` (`src/instruction.cpp`, lines 405–407). -/
def isValidInstruction (instruction : DecodedInstruction) : Bool :=
  instruction.kind != .invalid

/-! ## Building blocks -/

/-- `kOpcodeLoad` (line 9). -/
def kOpcodeLoad : BitVec 7 := 0x03

/-- `kOpcodeImm` (line 10). -/
def kOpcodeImm : BitVec 7 := 0x13

/-- `kOpcodeAuipc` (line 11). -/
def kOpcodeAuipc : BitVec 7 := 0x17

/-- `kOpcodeStore` (line 12). -/
def kOpcodeStore : BitVec 7 := 0x23

/-- `kOpcodeReg` (line 13). -/
def kOpcodeReg : BitVec 7 := 0x33

/-- `kOpcodeLui` (line 14). -/
def kOpcodeLui : BitVec 7 := 0x37

/-- `kOpcodeBranch` (line 15). -/
def kOpcodeBranch : BitVec 7 := 0x63

/-- `kOpcodeJalr` (line 16). -/
def kOpcodeJalr : BitVec 7 := 0x67

/-- `kOpcodeJal` (line 17). -/
def kOpcodeJal : BitVec 7 := 0x6F

/-- `kOpcodeSystem` (line 18). -/
def kOpcodeSystem : BitVec 7 := 0x73

/-- `base_decoded` (lines 20–30). -/
def baseDecoded (instruction : Word) : DecodedInstruction :=
  { raw := instruction
    opcode := extractOpcode instruction
    rd := extractRd instruction
    rs1 := extractRs1 instruction
    rs2 := extractRs2 instruction
    funct3 := extractFunct3 instruction
    funct7 := extractFunct7 instruction }

/-- `alu_reg_control` (lines 32–38). -/
def aluRegControl (op : ALUOp) : ControlSignals :=
  { regWrite := true, aluOp := op, writebackSource := .alu }

/-- `alu_imm_control` (lines 40–44). -/
def aluImmControl (op : ALUOp) : ControlSignals := { aluRegControl op with aluSrcImm := true }

/-- `set_memory_width` (lines 46–65). -/
def setMemoryWidth (control : ControlSignals) (funct3 : BitVec 3) : ControlSignals :=
  let width : MemoryAccessWidth :=
    if funct3 = 0 ∨ funct3 = 4 then .byte
    else if funct3 = 1 ∨ funct3 = 5 then .halfWord
    else if funct3 = 2 then .word
    else .none
  { control with memoryWidth := width, memUnsigned := funct3 == 4 || funct3 == 5 }

/-! ## The arms of the `switch` -/

/-- `case kOpcodeReg` (lines 73–109). -/
def decodeReg (instruction : Word) (decoded : DecodedInstruction) : DecodedInstruction :=
  let fields := decodeRType instruction
  let decoded := { decoded with format := .r }
  if fields.funct3 = 0 ∧ fields.funct7 = 0x00 then
    { decoded with kind := .add, control := aluRegControl .add }
  else if fields.funct3 = 0 ∧ fields.funct7 = 0x20 then
    { decoded with kind := .sub, control := aluRegControl .sub }
  else if fields.funct3 = 1 ∧ fields.funct7 = 0x00 then
    { decoded with kind := .sll, control := aluRegControl .sll }
  else if fields.funct3 = 2 ∧ fields.funct7 = 0x00 then
    { decoded with kind := .slt, control := aluRegControl .slt }
  else if fields.funct3 = 3 ∧ fields.funct7 = 0x00 then
    { decoded with kind := .sltu, control := aluRegControl .sltu }
  else if fields.funct3 = 4 ∧ fields.funct7 = 0x00 then
    { decoded with kind := .xor, control := aluRegControl .xor }
  else if fields.funct3 = 5 ∧ fields.funct7 = 0x00 then
    { decoded with kind := .srl, control := aluRegControl .srl }
  else if fields.funct3 = 5 ∧ fields.funct7 = 0x20 then
    { decoded with kind := .sra, control := aluRegControl .sra }
  else if fields.funct3 = 6 ∧ fields.funct7 = 0x00 then
    { decoded with kind := .or, control := aluRegControl .or }
  else if fields.funct3 = 7 ∧ fields.funct7 = 0x00 then
    { decoded with kind := .and, control := aluRegControl .and }
  else decoded

/-- `case kOpcodeImm` (lines 111–148). -/
def decodeImm (instruction : Word) (decoded : DecodedInstruction) : DecodedInstruction :=
  let fields := decodeIType instruction
  let decoded := { decoded with format := .i, immediate := fields.imm }
  if fields.funct3 = 0 then
    { decoded with kind := .addi, control := aluImmControl .add }
  else if fields.funct3 = 2 then
    { decoded with kind := .slti, control := aluImmControl .slt }
  else if fields.funct3 = 3 then
    { decoded with kind := .sltiu, control := aluImmControl .sltu }
  else if fields.funct3 = 4 then
    { decoded with kind := .xori, control := aluImmControl .xor }
  else if fields.funct3 = 6 then
    { decoded with kind := .ori, control := aluImmControl .or }
  else if fields.funct3 = 7 then
    { decoded with kind := .andi, control := aluImmControl .and }
  else if fields.funct3 = 1 ∧ decoded.funct7 = 0x00 then
    { decoded with
      kind := .slli, control := aluImmControl .sll, immediate := decoded.immediate &&& 0x1F }
  else if fields.funct3 = 5 ∧ decoded.funct7 = 0x00 then
    { decoded with
      kind := .srli, control := aluImmControl .srl, immediate := decoded.immediate &&& 0x1F }
  else if fields.funct3 = 5 ∧ decoded.funct7 = 0x20 then
    { decoded with
      kind := .srai, control := aluImmControl .sra, immediate := decoded.immediate &&& 0x1F }
  else decoded

/-- `case kOpcodeLoad` (lines 150–179). -/
def decodeLoad (instruction : Word) (decoded : DecodedInstruction) : DecodedInstruction :=
  let fields := decodeIType instruction
  let decoded := { decoded with format := .i, immediate := fields.imm }
  let control : ControlSignals :=
    { regWrite := true, memRead := true, aluSrcImm := true, aluOp := .add,
      writebackSource := .memory }
  let control := setMemoryWidth control fields.funct3
  let decoded :=
    if fields.funct3 = 0 then { decoded with kind := .lb }
    else if fields.funct3 = 1 then { decoded with kind := .lh }
    else if fields.funct3 = 2 then { decoded with kind := .lw }
    else if fields.funct3 = 4 then { decoded with kind := .lbu }
    else if fields.funct3 = 5 then { decoded with kind := .lhu }
    else decoded
  if decoded.kind ≠ .invalid then { decoded with control := control } else decoded

/-- `case kOpcodeStore` (lines 181–205). -/
def decodeStore (instruction : Word) (decoded : DecodedInstruction) : DecodedInstruction :=
  let fields := decodeSType instruction
  let decoded := { decoded with format := .s, immediate := fields.imm }
  let control : ControlSignals := { memWrite := true, aluSrcImm := true, aluOp := .add }
  let control := { setMemoryWidth control fields.funct3 with memUnsigned := false }
  let decoded :=
    if fields.funct3 = 0 then { decoded with kind := .sb }
    else if fields.funct3 = 1 then { decoded with kind := .sh }
    else if fields.funct3 = 2 then { decoded with kind := .sw }
    else decoded
  if decoded.kind ≠ .invalid then { decoded with control := control } else decoded

/-- `case kOpcodeBranch` (lines 207–241). -/
def decodeBranch (instruction : Word) (decoded : DecodedInstruction) : DecodedInstruction :=
  let fields := decodeBType instruction
  let decoded := { decoded with format := .b, immediate := fields.imm }
  let control : ControlSignals := { branch := true, aluOp := .sub }
  let (decoded, control) : DecodedInstruction × ControlSignals :=
    if fields.funct3 = 0 then
      ({ decoded with kind := .beq }, { control with branchCondition := .equal })
    else if fields.funct3 = 1 then
      ({ decoded with kind := .bne }, { control with branchCondition := .notEqual })
    else if fields.funct3 = 4 then
      ({ decoded with kind := .blt }, { control with branchCondition := .lessThan })
    else if fields.funct3 = 5 then
      ({ decoded with kind := .bge }, { control with branchCondition := .greaterOrEqual })
    else if fields.funct3 = 6 then
      ({ decoded with kind := .bltu }, { control with branchCondition := .lessThanUnsigned })
    else if fields.funct3 = 7 then
      ({ decoded with kind := .bgeu }, { control with branchCondition := .greaterOrEqualUnsigned })
    else (decoded, control)
  if decoded.kind ≠ .invalid then { decoded with control := control } else decoded

/-- `case kOpcodeLui` (lines 243–251). -/
def decodeLui (instruction : Word) (decoded : DecodedInstruction) : DecodedInstruction :=
  let fields := decodeUType instruction
  { decoded with
    format := .u
    immediate := fields.imm
    kind := .lui
    control := { decoded.control with regWrite := true, writebackSource := .immediate } }

/-- `case kOpcodeAuipc` (lines 253–264). -/
def decodeAuipc (instruction : Word) (decoded : DecodedInstruction) : DecodedInstruction :=
  let fields := decodeUType instruction
  { decoded with
    format := .u
    immediate := fields.imm
    kind := .auipc
    control := { decoded.control with
      regWrite := true, aluSrcPc := true, aluSrcImm := true, aluOp := .add,
      writebackSource := .alu } }

/-- `case kOpcodeJal` (lines 266–278). -/
def decodeJal (instruction : Word) (decoded : DecodedInstruction) : DecodedInstruction :=
  let fields := decodeJType instruction
  { decoded with
    format := .j
    immediate := fields.imm
    kind := .jal
    control := { decoded.control with
      regWrite := true, jump := true, aluSrcPc := true, aluSrcImm := true, aluOp := .add,
      writebackSource := .pcPlus4 } }

/-- `case kOpcodeJalr` (lines 280–294). -/
def decodeJalr (instruction : Word) (decoded : DecodedInstruction) : DecodedInstruction :=
  let fields := decodeIType instruction
  let decoded := { decoded with format := .i, immediate := fields.imm }
  if fields.funct3 = 0 then
    { decoded with
      kind := .jalr
      control := { decoded.control with
        regWrite := true, jump := true, aluSrcImm := true, aluOp := .add,
        writebackSource := .pcPlus4 } }
  else decoded

/-- `case kOpcodeSystem` (lines 296–309). -/
def decodeSystem (instruction : Word) (decoded : DecodedInstruction) : DecodedInstruction :=
  let fields := decodeIType instruction
  let decoded := { decoded with format := .i, immediate := fields.imm }
  if fields.funct3 = 0 ∧ fields.imm = 0 then
    { decoded with kind := .ecall, control := { decoded.control with halt := true } }
  else if fields.funct3 = 0 ∧ fields.imm = 1 then
    { decoded with kind := .ebreak, control := { decoded.control with halt := true } }
  else decoded

/-- `decode_instruction` (lines 69–316). -/
def decodeInstruction (instruction : Word) : DecodedInstruction :=
  let decoded := baseDecoded instruction
  if decoded.opcode = kOpcodeReg then decodeReg instruction decoded
  else if decoded.opcode = kOpcodeImm then decodeImm instruction decoded
  else if decoded.opcode = kOpcodeLoad then decodeLoad instruction decoded
  else if decoded.opcode = kOpcodeStore then decodeStore instruction decoded
  else if decoded.opcode = kOpcodeBranch then decodeBranch instruction decoded
  else if decoded.opcode = kOpcodeLui then decodeLui instruction decoded
  else if decoded.opcode = kOpcodeAuipc then decodeAuipc instruction decoded
  else if decoded.opcode = kOpcodeJal then decodeJal instruction decoded
  else if decoded.opcode = kOpcodeJalr then decodeJalr instruction decoded
  else if decoded.opcode = kOpcodeSystem then decodeSystem instruction decoded
  else decoded

end RvPipeline
