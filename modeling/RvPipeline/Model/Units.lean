import RvPipeline.Model.PipelineRegisters

/-!
# Forwarding unit and hazard unit

Models of `src/forwarding_unit.cpp` and `src/hazard_unit.cpp`.
-/

namespace RvPipeline

open Isa (Word Reg)

/-! ## Forwarding -/

/-- `struct ForwardedOperands` (`include/forwarding_unit.hpp`, lines 7–12). -/
structure ForwardedOperands where
  rs1Value : Word := 0
  rs2Value : Word := 0
  forwardedRs1 : Bool := false
  forwardedRs2 : Bool := false
  deriving DecidableEq, Repr

/-- `can_forward_from_ex_mem` (`src/forwarding_unit.cpp`, lines 7–10). -/
def canForwardFromExMem (exMem : EXMEMRegister) : Bool :=
  exMem.valid && exMem.control.regWrite && exMem.rd != 0#5 && !exMem.control.memRead

/-- `can_forward_from_mem_wb` (lines 12–14). -/
def canForwardFromMemWb (memWb : MEMWBRegister) : Bool :=
  memWb.valid && memWb.control.regWrite && memWb.rd != 0#5

/-- `ex_mem_forward_value` (lines 16–30). -/
def exMemForwardValue (exMem : EXMEMRegister) : Word :=
  match exMem.control.writebackSource with
  | .alu => exMem.aluResult
  | .pcPlus4 => exMem.pcPlus4
  | .immediate => exMem.immediate
  | .memory | .none => 0

/-- `mem_wb_forward_value` (lines 32–47). -/
def memWbForwardValue (memWb : MEMWBRegister) : Word :=
  match memWb.control.writebackSource with
  | .alu => memWb.aluResult
  | .memory => memWb.memoryData
  | .pcPlus4 => memWb.pcPlus4
  | .immediate => memWb.immediate
  | .none => 0

/-- The two `EX/MEM` conditionals of `resolve_forwarding` (lines 57–68). -/
def forwardFromExMem (idEx : IDEXRegister) (exMem : EXMEMRegister) (operands : ForwardedOperands) :
    ForwardedOperands :=
  if canForwardFromExMem exMem then
    let value := exMemForwardValue exMem
    let operands := if idEx.rs1 ≠ 0#5 ∧ idEx.rs1 = exMem.rd then
      { operands with rs1Value := value, forwardedRs1 := true } else operands
    if idEx.rs2 ≠ 0#5 ∧ idEx.rs2 = exMem.rd then
      { operands with rs2Value := value, forwardedRs2 := true } else operands
  else operands

/-- The two `MEM/WB` conditionals of `resolve_forwarding` (lines 70–83). -/
def forwardFromMemWb (idEx : IDEXRegister) (memWb : MEMWBRegister) (operands : ForwardedOperands) :
    ForwardedOperands :=
  if canForwardFromMemWb memWb then
    let value := memWbForwardValue memWb
    let operands := if !operands.forwardedRs1 ∧ idEx.rs1 ≠ 0#5 ∧ idEx.rs1 = memWb.rd then
      { operands with rs1Value := value, forwardedRs1 := true } else operands
    if !operands.forwardedRs2 ∧ idEx.rs2 ≠ 0#5 ∧ idEx.rs2 = memWb.rd then
      { operands with rs2Value := value, forwardedRs2 := true } else operands
  else operands

/-- `resolve_forwarding` (lines 51–86). -/
def resolveForwarding (idEx : IDEXRegister) (pipeline : PipelineRegisters) : ForwardedOperands :=
  let operands : ForwardedOperands := { rs1Value := idEx.rs1Value, rs2Value := idEx.rs2Value }
  let operands := forwardFromExMem idEx pipeline.exMem operands
  forwardFromMemWb idEx pipeline.memWb operands

/-! ## Hazards -/

/-- `struct SourceRegisters` (`include/hazard_unit.hpp`, lines 8–13). -/
structure SourceRegisters where
  usesRs1 : Bool := false
  usesRs2 : Bool := false
  rs1 : Reg := 0
  rs2 : Reg := 0
  deriving DecidableEq, Repr

/-- `struct HazardDecision` (lines 15–17). -/
structure HazardDecision where
  stall : Bool := false
  deriving DecidableEq, Repr

/-- `writes_register` (`src/hazard_unit.cpp`, lines 7–9). -/
def writesRegister (valid : Bool) (control : ControlSignals) (rd : Reg) : Bool :=
  valid && control.regWrite && rd != 0#5

/-- `depends_on` (lines 11–14). -/
def dependsOn (sources : SourceRegisters) (rd : Reg) : Bool :=
  (sources.usesRs1 && sources.rs1 == rd) || (sources.usesRs2 && sources.rs2 == rd)

/-- `get_source_registers` (lines 18–82). -/
def getSourceRegisters (instruction : DecodedInstruction) : SourceRegisters :=
  let sources : SourceRegisters := { rs1 := instruction.rs1, rs2 := instruction.rs2 }
  let sources := match instruction.kind with
    | .add | .sub | .sll | .slt | .sltu | .xor | .srl | .sra | .or | .and | .sb | .sh | .sw
    | .beq | .bne | .blt | .bge | .bltu | .bgeu =>
      { sources with usesRs1 := true, usesRs2 := true }
    | .addi | .slti | .sltiu | .xori | .ori | .andi | .slli | .srli | .srai | .lb | .lh | .lw
    | .lbu | .lhu | .jalr => { sources with usesRs1 := true }
    | .lui | .auipc | .jal | .ecall | .ebreak | .invalid => sources
  let sources := if sources.rs1 = 0#5 then { sources with usesRs1 := false } else sources
  if sources.rs2 = 0#5 then { sources with usesRs2 := false } else sources

/-- `detect_raw_hazard` (lines 84–108). -/
def detectRawHazard (pipeline : PipelineRegisters) : HazardDecision :=
  let decision : HazardDecision := {}
  if !pipeline.ifId.valid then decision
  else
    let decoded := decodeInstruction pipeline.ifId.instruction
    if !isValidInstruction decoded then decision
    else
      let sources := getSourceRegisters decoded
      if writesRegister pipeline.idEx.valid pipeline.idEx.control pipeline.idEx.rd &&
          dependsOn sources pipeline.idEx.rd then
        { decision with stall := pipeline.idEx.control.memRead }
      else decision

end RvPipeline
