import RvPipeline.Model.Cpu
import RvPipeline.Model.Units

/-!
# The five stages and the cycle

Model of `include/stages.hpp` and `src/stages.cpp`. A stage runs in `Sim`, on
the CPU and the pipeline registers it gets by reference; an exception keeps
what has been changed before it. `StageControl` is a local variable of
`run_pipeline_cycle` and is passed and returned.
-/

namespace RvPipeline

open Isa (Word Byte)

/-- The two objects every stage works on. -/
structure Machine where
  cpu : CPU
  pipeline : PipelineRegisters := {}

/-- A function of the CPU and the pipeline registers that may throw. -/
abbrev Sim := EStateM OutOfRange Machine

/-- Call a member function of the CPU. -/
def onCpu {α : Type} (f : CpuM α) : Sim α := fun m =>
  match f m.cpu with
  | .ok a cpu => .ok a { m with cpu := cpu }
  | .error e cpu => .error e { m with cpu := cpu }

/-- `struct StageControl` (`include/stages.hpp`, lines 8–12). -/
structure StageControl where
  flushIdEx : Bool := false
  stallFetchDecode : Bool := false
  stopFetch : Bool := false
  deriving DecidableEq, Repr

/-! ## Helpers -/

/-- `sign_extend_value` (`src/stages.cpp`, lines 13–23), the same function as
    `sign_extend` of the decoder. -/
def signExtendValue (value : Word) (bitCount : ℕ) : Word :=
  let signBit := 1#32 <<< (bitCount - 1)
  let mask := (1#32 <<< bitCount) - 1
  let value := value &&& mask
  if value &&& signBit = 0 then value else value ||| ~~~mask

/-- `select_writeback_value` (lines 25–40). -/
def selectWritebackValue (memWb : MEMWBRegister) : Word :=
  match memWb.control.writebackSource with
  | .alu => memWb.aluResult
  | .memory => memWb.memoryData
  | .pcPlus4 => memWb.pcPlus4
  | .immediate => memWb.immediate
  | .none => 0

/-- `halt_is_in_flight` (lines 42–46). -/
def haltIsInFlight (pipeline : PipelineRegisters) : Bool :=
  (pipeline.idEx.valid && pipeline.idEx.control.halt) ||
    (pipeline.exMem.valid && pipeline.exMem.control.halt) ||
    (pipeline.memWb.valid && pipeline.memWb.control.halt)

/-- `execute_alu` (lines 48–78). -/
def executeAlu (op : ALUOp) (lhs rhs : Word) : Word :=
  let shamt := rhs &&& 0x1F#32
  match op with
  | .add => lhs + rhs
  | .sub => lhs - rhs
  | .and => lhs &&& rhs
  | .or => lhs ||| rhs
  | .xor => lhs ^^^ rhs
  | .sll => lhs <<< shamt
  | .srl => lhs >>> shamt
  | .sra => lhs.sshiftRight' shamt
  | .slt => if lhs.toInt < rhs.toInt then 1 else 0
  | .sltu => if lhs < rhs then 1 else 0
  | .none => 0

/-- `evaluate_branch` (lines 80–99). -/
def evaluateBranch (condition : BranchCondition) (lhs rhs : Word) : Bool :=
  match condition with
  | .equal => lhs == rhs
  | .notEqual => lhs != rhs
  | .lessThan => lhs.toInt < rhs.toInt
  | .greaterOrEqual => lhs.toInt ≥ rhs.toInt
  | .lessThanUnsigned => lhs < rhs
  | .greaterOrEqualUnsigned => lhs ≥ rhs
  | .none => false

/-- `read_memory` (lines 101–124). -/
def readMemory (cpu : CPU) (address : Word) (control : ControlSignals) :
    Except OutOfRange Word := do
  match control.memoryWidth with
  | .byte =>
    let value := (← cpu.readU8 address).setWidth 32
    return if control.memUnsigned then value else signExtendValue value 8
  | .halfWord =>
    let value := (← cpu.readU16 address).setWidth 32
    return if control.memUnsigned then value else signExtendValue value 16
  | .word => cpu.readU32 address
  | .none => return 0

/-- `write_memory` (lines 126–143). -/
def writeMemory (address value : Word) (control : ControlSignals) : CpuM Unit :=
  match control.memoryWidth with
  | .byte => CPU.writeU8 address ((value &&& 0xFF).setWidth 8)
  | .halfWord => CPU.writeU16 address ((value &&& 0xFFFF).setWidth 16)
  | .word => CPU.writeU32 address value
  | .none => pure ()

/-! ## Stages -/

/-- `stage_WB` (lines 147–162). -/
def stageWB : Sim Unit := do
  let memWb := (← get).pipeline.memWb
  if !memWb.valid then
    return ()
  else
    if memWb.control.regWrite then
      modify fun m => { m with cpu := m.cpu.writeReg memWb.rd (selectWritebackValue memWb) }
    if memWb.control.halt then
      modify fun m => { m with cpu := m.cpu.halt }
    modify fun m =>
      { m with cpu.stats.instructionCount := m.cpu.stats.instructionCount + 1 }

/-- The part of the next `MEM/WB` latch that `stage_MEM` copies (lines 171–179). -/
def nextMemWbOf (exMem : EXMEMRegister) : MEMWBRegister :=
  { valid := true
    pc := exMem.pc
    instruction := exMem.instruction
    rd := exMem.rd
    aluResult := exMem.aluResult
    pcPlus4 := exMem.pcPlus4
    immediate := exMem.immediate
    control := exMem.control }

/-- `stage_MEM` (lines 164–190). -/
def stageMEM : Sim Unit := do
  let exMem := (← get).pipeline.exMem
  if !exMem.valid then
    modify fun m => { m with pipeline.nextMemWb := {} }
  else
    let next := nextMemWbOf exMem
    let memoryData ←
      if exMem.control.memRead then
        liftExcept (readMemory (← get).cpu exMem.aluResult exMem.control)
      else pure next.memoryData
    let next := { next with memoryData := memoryData }
    if exMem.control.memWrite then
      onCpu (writeMemory exMem.aluResult exMem.storeValue exMem.control)
    modify fun m => { m with pipeline.nextMemWb := next }

/-- The part of the next `EX/MEM` latch that does not depend on control flow
    (lines 200–216). -/
def nextExMemOf (idEx : IDEXRegister) (operands : ForwardedOperands) : EXMEMRegister :=
  let lhs := if idEx.control.aluSrcPc then idEx.pc else operands.rs1Value
  let rhs := if idEx.control.aluSrcImm then idEx.immediate else operands.rs2Value
  { valid := true
    pc := idEx.pc
    instruction := idEx.instruction
    rd := idEx.rd
    aluResult := executeAlu idEx.control.aluOp lhs rhs
    storeValue := operands.rs2Value
    pcPlus4 := idEx.pc + 4
    immediate := idEx.immediate
    control := idEx.control }

/-- `stage_EX` (lines 192–253). -/
def stageEX (control : StageControl) : Sim StageControl := do
  let pipeline := (← get).pipeline
  let idEx := pipeline.idEx
  if !idEx.valid then
    modify fun m => { m with pipeline.nextExMem := {} }
    return control
  else
    let operands := resolveForwarding idEx pipeline
    let next := nextExMemOf idEx operands
    if idEx.control.branch then
      let actualTaken :=
        evaluateBranch idEx.control.branchCondition operands.rs1Value operands.rs2Value
      let actualTarget := if actualTaken then idEx.pc + idEx.immediate else idEx.pc + 4
      modify fun m =>
        { m with cpu.stats.branchPredictions := m.cpu.stats.branchPredictions + 1 }
      if idEx.predictedNextPc ≠ actualTarget then
        modify fun m =>
          { m with cpu.stats.branchMispredictions := m.cpu.stats.branchMispredictions + 1 }
      modify fun m => { m with cpu := m.cpu.updateBranchPredictor idEx.pc actualTaken }
      finish { next with branchTaken := actualTaken, branchTarget := actualTarget } idEx
        actualTarget control
    else if idEx.control.jump then
      let actualTarget :=
        if idEx.control.aluSrcPc then next.aluResult else next.aluResult &&& ~~~1#32
      finish { next with branchTaken := true, branchTarget := actualTarget } idEx
        actualTarget control
    else
      modify fun m => { m with pipeline.nextExMem := next }
      return control
where
  /-- Redirect the fetch if the prediction was wrong, and latch (lines 247–252). -/
  finish (next : EXMEMRegister) (idEx : IDEXRegister) (actualTarget : Word)
      (control : StageControl) : Sim StageControl := do
    let redirect := idEx.predictedNextPc != actualTarget
    if redirect then
      modify fun m => { m with cpu := m.cpu.setPc actualTarget }
    modify fun m => { m with pipeline.nextExMem := next }
    return if redirect then { control with flushIdEx := true } else control

/-- The next `ID/EX` latch of `stage_ID` (lines 278–295). -/
def nextIdExOf (cpu : CPU) (ifId : IFIDRegister) (decoded : DecodedInstruction) : IDEXRegister :=
  { valid := true
    pc := ifId.pc
    instruction := ifId.instruction
    predictedTaken := ifId.predictedTaken
    predictedNextPc := ifId.predictedNextPc
    format := decoded.format
    rd := decoded.rd
    rs1 := decoded.rs1
    rs2 := decoded.rs2
    funct3 := decoded.funct3
    funct7 := decoded.funct7
    immediate := decoded.immediate
    rs1Value := cpu.readReg decoded.rs1
    rs2Value := cpu.readReg decoded.rs2
    control := decoded.control }

/-- `stage_ID` (lines 255–302). -/
def stageID (control : StageControl) : Sim StageControl := do
  let ifId := (← get).pipeline.ifId
  let decoded := decodeInstruction ifId.instruction
  if control.flushIdEx || control.stallFetchDecode || !ifId.valid || !isValidInstruction decoded then
    modify fun m => { m with pipeline.nextIdEx := {} }
    return control
  else
    let next := nextIdExOf (← get).cpu ifId decoded
    modify fun m => { m with pipeline.nextIdEx := next }
    return if next.control.halt then { control with stopFetch := true } else control

/-- The next `IF/ID` latch for the word `instruction` fetched at `pc`
    (`stage_IF`, lines 313–326). -/
def nextIfIdOf (cpu : CPU) (pc instruction : Word) : IFIDRegister :=
  let next : IFIDRegister :=
    { valid := true, pc := pc, instruction := instruction, predictedNextPc := pc + 4 }
  let decoded := decodeInstruction instruction
  if isValidInstruction decoded && decoded.control.branch then
    let next := { next with predictedTaken := cpu.predictBranch pc }
    if next.predictedTaken then { next with predictedNextPc := pc + decoded.immediate } else next
  else next

/-- `stage_IF` (lines 304–330). -/
def stageIF : Sim Unit := do
  modify fun m => { m with pipeline.nextIfId := m.pipeline.ifId }
  let pc := (← get).cpu.pc
  if pc.toNat + 4 > (← get).cpu.memorySize then
    modify fun m => { m with pipeline.nextIfId := {} }
  else
    let instruction ← liftExcept ((← get).cpu.readU32 pc)
    let next := nextIfIdOf (← get).cpu pc instruction
    modify fun m => { m with cpu := m.cpu.setPc next.predictedNextPc }
    modify fun m => { m with pipeline.nextIfId := next }

/-- `run_pipeline_cycle` (lines 332–362). -/
def runPipelineCycle : Sim Unit := do
  modify fun m => { m with pipeline := m.pipeline.clearNext }
  let control : StageControl := {}
  stageWB
  stageMEM
  let control ← stageEX control
  let control ←
    if !control.flushIdEx then do
      let hazard := detectRawHazard (← get).pipeline
      if hazard.stall then
        modify fun m => { m with cpu.stats.stallCycles := m.cpu.stats.stallCycles + 1 }
      pure { control with stallFetchDecode := hazard.stall }
    else pure control
  let control ← stageID control
  if control.stopFetch || haltIsInFlight (← get).pipeline then
    modify fun m => { m with pipeline.nextIfId := {} }
  else if !control.stallFetchDecode then
    stageIF
  else
    modify fun m => { m with pipeline.nextIfId := m.pipeline.ifId }
  modify fun m => { m with pipeline := m.pipeline.commit }
  modify fun m => { m with cpu := m.cpu.tick }

end RvPipeline
