import RvPipeline.Model.Instruction

/-!
# The encoders of the tests

Model of the encoders in `tests/simulator_tests.cpp`, one for each format and
one for the immediate shifts. A `uint8_t` parameter is a `BitVec 8` and an
`int32_t` a `Word` read in two's complement; a parameter that is wider than its
field is not cut down to it unless the source does.
-/

namespace RvPipeline

open Isa (Word)

/-- `encode_r` (`tests/simulator_tests.cpp`, lines 18–28). -/
def encodeR (funct7 rs2 rs1 funct3 rd : BitVec 8) : Word :=
  (funct7.setWidth 32 <<< 25) ||| (rs2.setWidth 32 <<< 20) ||| (rs1.setWidth 32 <<< 15) |||
    (funct3.setWidth 32 <<< 12) ||| (rd.setWidth 32 <<< 7) ||| 0x33

/-- `encode_i` (lines 30–39). -/
def encodeI (imm : Word) (rs1 funct3 rd : BitVec 8) (opcode : BitVec 8 := 0x13) : Word :=
  ((imm &&& 0xFFF) <<< 20) ||| (rs1.setWidth 32 <<< 15) ||| (funct3.setWidth 32 <<< 12) |||
    (rd.setWidth 32 <<< 7) ||| opcode.setWidth 32

/-- `encode_shift_i` (lines 41–51). -/
def encodeShiftI (funct7 shamt rs1 funct3 rd : BitVec 8) : Word :=
  (funct7.setWidth 32 <<< 25) ||| ((shamt.setWidth 32 &&& 0x1F) <<< 20) |||
    (rs1.setWidth 32 <<< 15) ||| (funct3.setWidth 32 <<< 12) ||| (rd.setWidth 32 <<< 7) ||| 0x13

/-- `encode_s` (lines 53–60). -/
def encodeS (imm : Word) (rs2 rs1 funct3 : BitVec 8) : Word :=
  let bits := imm &&& 0xFFF
  (((bits >>> 5) &&& 0x7F) <<< 25) ||| (rs2.setWidth 32 <<< 20) ||| (rs1.setWidth 32 <<< 15) |||
    (funct3.setWidth 32 <<< 12) ||| ((bits &&& 0x1F) <<< 7) ||| 0x23

/-- `encode_b` (lines 62–71). -/
def encodeB (imm : Word) (rs2 rs1 funct3 : BitVec 8) : Word :=
  let bits := imm &&& 0x1FFF
  (((bits >>> 12) &&& 0x1) <<< 31) ||| (((bits >>> 5) &&& 0x3F) <<< 25) |||
    (rs2.setWidth 32 <<< 20) ||| (rs1.setWidth 32 <<< 15) ||| (funct3.setWidth 32 <<< 12) |||
    (((bits >>> 1) &&& 0xF) <<< 8) ||| (((bits >>> 11) &&& 0x1) <<< 7) ||| 0x63

/-- `encode_u` (lines 73–76). -/
def encodeU (imm20 : Word) (rd opcode : BitVec 8) : Word :=
  ((imm20 &&& 0xFFFFF) <<< 12) ||| (rd.setWidth 32 <<< 7) ||| opcode.setWidth 32

/-- `encode_j` (lines 78–85). -/
def encodeJ (imm : Word) (rd : BitVec 8) : Word :=
  let bits := imm &&& 0x1FFFFF
  (((bits >>> 20) &&& 0x1) <<< 31) ||| (((bits >>> 1) &&& 0x3FF) <<< 21) |||
    (((bits >>> 11) &&& 0x1) <<< 20) ||| (((bits >>> 12) &&& 0xFF) <<< 12) |||
    (rd.setWidth 32 <<< 7) ||| 0x6F

end RvPipeline
