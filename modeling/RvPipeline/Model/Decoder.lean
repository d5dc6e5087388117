import RvPipeline.Isa.Instr

/-!
# Bit fields

Model of `include/decoder.hpp` and `src/decoder.cpp`. The `uint8_t` fields have
the width of the bits they are extracted from, so a register field is a valid
register number by its type.
-/

namespace RvPipeline

open Isa (Word Reg)

/-- `bits` (`src/decoder.cpp`, lines 7–11). -/
def bits (value : Word) (highBit lowBit : ℕ) : Word :=
  let width := highBit - lowBit + 1
  let mask := (1#32 <<< width) - 1
  (value >>> lowBit) &&& mask

/-- `extract_opcode` (lines 15–17). -/
def extractOpcode (instruction : Word) : BitVec 7 := (bits instruction 6 0).setWidth 7

/-- `extract_rd` (lines 19–21). -/
def extractRd (instruction : Word) : Reg := (bits instruction 11 7).setWidth 5

/-- `extract_funct3` (lines 23–25). -/
def extractFunct3 (instruction : Word) : BitVec 3 := (bits instruction 14 12).setWidth 3

/-- `extract_rs1` (lines 27–29). -/
def extractRs1 (instruction : Word) : Reg := (bits instruction 19 15).setWidth 5

/-- `extract_rs2` (lines 31–33). -/
def extractRs2 (instruction : Word) : Reg := (bits instruction 24 20).setWidth 5

/-- `extract_funct7` (lines 35–37). -/
def extractFunct7 (instruction : Word) : BitVec 7 := (bits instruction 31 25).setWidth 7

/-- `sign_extend` (lines 39–49). -/
def signExtend (value : Word) (bitCount : ℕ) : Word :=
  let signBit := 1#32 <<< (bitCount - 1)
  let mask := (1#32 <<< bitCount) - 1
  let value := value &&& mask
  if value &&& signBit = 0 then value else value ||| ~~~mask

/-- `struct RTypeFields` (`include/decoder.hpp`, lines 9–16). -/
structure RTypeFields where
  opcode : BitVec 7
  rd : Reg
  funct3 : BitVec 3
  rs1 : Reg
  rs2 : Reg
  funct7 : BitVec 7

/-- `struct ITypeFields` (lines 18–24). -/
structure ITypeFields where
  opcode : BitVec 7
  rd : Reg
  funct3 : BitVec 3
  rs1 : Reg
  imm : Word

/-- `struct STypeFields` (lines 26–32). -/
structure STypeFields where
  opcode : BitVec 7
  funct3 : BitVec 3
  rs1 : Reg
  rs2 : Reg
  imm : Word

/-- `struct BTypeFields` (lines 34–40). -/
structure BTypeFields where
  opcode : BitVec 7
  funct3 : BitVec 3
  rs1 : Reg
  rs2 : Reg
  imm : Word

/-- `struct UTypeFields` (lines 42–46). -/
structure UTypeFields where
  opcode : BitVec 7
  rd : Reg
  imm : Word

/-- `struct JTypeFields` (lines 48–52). -/
structure JTypeFields where
  opcode : BitVec 7
  rd : Reg
  imm : Word

/-- `decode_r_type` (`src/decoder.cpp`, lines 51–60). -/
def decodeRType (instruction : Word) : RTypeFields :=
  { opcode := extractOpcode instruction
    rd := extractRd instruction
    funct3 := extractFunct3 instruction
    rs1 := extractRs1 instruction
    rs2 := extractRs2 instruction
    funct7 := extractFunct7 instruction }

/-- `decode_i_type` (lines 62–72). -/
def decodeIType (instruction : Word) : ITypeFields :=
  let imm := bits instruction 31 20
  { opcode := extractOpcode instruction
    rd := extractRd instruction
    funct3 := extractFunct3 instruction
    rs1 := extractRs1 instruction
    imm := signExtend imm 12 }

/-- `decode_s_type` (lines 74–85). -/
def decodeSType (instruction : Word) : STypeFields :=
  let imm := (bits instruction 31 25 <<< 5) ||| bits instruction 11 7
  { opcode := extractOpcode instruction
    funct3 := extractFunct3 instruction
    rs1 := extractRs1 instruction
    rs2 := extractRs2 instruction
    imm := signExtend imm 12 }

/-- `decode_b_type` (lines 87–101). -/
def decodeBType (instruction : Word) : BTypeFields :=
  let imm := (bits instruction 31 31 <<< 12) ||| (bits instruction 7 7 <<< 11) |||
    (bits instruction 30 25 <<< 5) ||| (bits instruction 11 8 <<< 1)
  { opcode := extractOpcode instruction
    funct3 := extractFunct3 instruction
    rs1 := extractRs1 instruction
    rs2 := extractRs2 instruction
    imm := signExtend imm 13 }

/-- `decode_u_type` (lines 103–109). -/
def decodeUType (instruction : Word) : UTypeFields :=
  { opcode := extractOpcode instruction
    rd := extractRd instruction
    imm := instruction &&& 0xFFFFF000 }

/-- `decode_j_type` (lines 111–123). -/
def decodeJType (instruction : Word) : JTypeFields :=
  let imm := (bits instruction 31 31 <<< 20) ||| (bits instruction 19 12 <<< 12) |||
    (bits instruction 20 20 <<< 11) ||| (bits instruction 30 21 <<< 1)
  { opcode := extractOpcode instruction
    rd := extractRd instruction
    imm := signExtend imm 21 }

end RvPipeline
