import RvPipeline.Model.Instruction

/-!
# Pipeline latches

Model of the four latches and their `next_` copies in
`include/pipeline_registers.hpp`. The default value of a latch is what
`clear()` assigns: a bubble.
-/

namespace RvPipeline

open Isa (Word Reg)

/-- `struct IFIDRegister` (lines 73–83). -/
structure IFIDRegister where
  valid : Bool := false
  pc : Word := 0
  instruction : Word := 0
  predictedTaken : Bool := false
  predictedNextPc : Word := 0
  deriving DecidableEq, Repr

/-- `struct IDEXRegister` (lines 85–108). -/
structure IDEXRegister where
  valid : Bool := false
  pc : Word := 0
  instruction : Word := 0
  predictedTaken : Bool := false
  predictedNextPc : Word := 0
  format : InstructionFormat := .unknown
  rd : Reg := 0
  rs1 : Reg := 0
  rs2 : Reg := 0
  funct3 : BitVec 3 := 0
  funct7 : BitVec 7 := 0
  immediate : Word := 0
  rs1Value : Word := 0
  rs2Value : Word := 0
  control : ControlSignals := {}
  deriving DecidableEq, Repr

/-- `struct EXMEMRegister` (lines 110–128). -/
structure EXMEMRegister where
  valid : Bool := false
  pc : Word := 0
  instruction : Word := 0
  rd : Reg := 0
  aluResult : Word := 0
  storeValue : Word := 0
  pcPlus4 : Word := 0
  immediate : Word := 0
  branchTarget : Word := 0
  branchTaken : Bool := false
  control : ControlSignals := {}
  deriving DecidableEq, Repr

/-- `struct MEMWBRegister` (lines 130–146). -/
structure MEMWBRegister where
  valid : Bool := false
  pc : Word := 0
  instruction : Word := 0
  rd : Reg := 0
  aluResult : Word := 0
  memoryData : Word := 0
  pcPlus4 : Word := 0
  immediate : Word := 0
  control : ControlSignals := {}
  deriving DecidableEq, Repr

/-- `struct PipelineRegisters` (lines 148–180). -/
structure PipelineRegisters where
  ifId : IFIDRegister := {}
  idEx : IDEXRegister := {}
  exMem : EXMEMRegister := {}
  memWb : MEMWBRegister := {}
  nextIfId : IFIDRegister := {}
  nextIdEx : IDEXRegister := {}
  nextExMem : EXMEMRegister := {}
  nextMemWb : MEMWBRegister := {}
  deriving DecidableEq, Repr

/-- `PipelineRegisters::commit` (lines 159–164). -/
def PipelineRegisters.commit (p : PipelineRegisters) : PipelineRegisters :=
  { p with ifId := p.nextIfId, idEx := p.nextIdEx, exMem := p.nextExMem, memWb := p.nextMemWb }

/-- `PipelineRegisters::clear_next` (lines 166–171). -/
def PipelineRegisters.clearNext (p : PipelineRegisters) : PipelineRegisters :=
  { p with nextIfId := {}, nextIdEx := {}, nextExMem := {}, nextMemWb := {} }

end RvPipeline
