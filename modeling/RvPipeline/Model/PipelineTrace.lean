import RvPipeline.Model.OStream
import RvPipeline.Model.PipelineRegisters

/-!
# The pipeline trace

Model of `src/pipeline_trace.cpp`, and of the names it prints.
-/

namespace RvPipeline

open Isa (Word)

/-- `instruction_kind_name` (`src/instruction.cpp`, lines 318–403). -/
def instructionKindName : InstructionKind → String
  | .add => "add"
  | .sub => "sub"
  | .sll => "sll"
  | .slt => "slt"
  | .sltu => "sltu"
  | .xor => "xor"
  | .srl => "srl"
  | .sra => "sra"
  | .or => "or"
  | .and => "and"
  | .addi => "addi"
  | .slti => "slti"
  | .sltiu => "sltiu"
  | .xori => "xori"
  | .ori => "ori"
  | .andi => "andi"
  | .slli => "slli"
  | .srli => "srli"
  | .srai => "srai"
  | .lb => "lb"
  | .lh => "lh"
  | .lw => "lw"
  | .lbu => "lbu"
  | .lhu => "lhu"
  | .sb => "sb"
  | .sh => "sh"
  | .sw => "sw"
  | .beq => "beq"
  | .bne => "bne"
  | .blt => "blt"
  | .bge => "bge"
  | .bltu => "bltu"
  | .bgeu => "bgeu"
  | .lui => "lui"
  | .auipc => "auipc"
  | .jal => "jal"
  | .jalr => "jalr"
  | .ecall => "ecall"
  | .ebreak => "ebreak"
  | .invalid => "invalid"

/-- `latch_name` (`src/pipeline_trace.cpp`, lines 12–18). -/
def latchName (valid : Bool) (instruction : Word) : String :=
  if !valid then "bubble" else instructionKindName (decodeInstruction instruction).kind

/-- `print_latch` (lines 20–49). -/
def printLatch (name : String) (valid : Bool) (pc instruction : Word)
    (showPrediction : Bool := false) (predictedTaken : Bool := false)
    (predictedNextPc : Word := 0) : PrintM Unit := do
  emit fun o => (((o.str "  ").setLeft.setw 6).str name).str " "
  if !valid then
    emit fun o => o.str "bubble\n"
  else
    emit fun o =>
      let o := (((o.setRight.str "pc=0x").setHex.setw 8).setfill '0').num pc.toNat
      let o := ((o.str " inst=0x").setw 8).num instruction.toNat
      ((o.setDec.setfill ' ').str " op=").str (latchName valid instruction)
    let decoded := decodeInstruction instruction
    emit fun o =>
      if showPrediction && decoded.control.branch then
        let o := (o.str " prediction=").str (if predictedTaken then "taken" else "not-taken")
        let o := (((o.str " next-pc=0x").setHex.setw 8).setfill '0').num predictedNextPc.toNat
        o.setDec.setfill ' '
      else o
    emit fun o => o.str "\n"

/-- `print_pipeline_trace` (lines 53–83). -/
def printPipelineTrace (cpu : CPU) (pipeline : PipelineRegisters) : PrintM Unit := do
  emit fun o => ((o.str "\nCycle ").num cpu.stats.clockCycles).str ":\n"
  printLatch "IF/ID" pipeline.ifId.valid pipeline.ifId.pc pipeline.ifId.instruction true
    pipeline.ifId.predictedTaken pipeline.ifId.predictedNextPc
  printLatch "ID/EX" pipeline.idEx.valid pipeline.idEx.pc pipeline.idEx.instruction true
    pipeline.idEx.predictedTaken pipeline.idEx.predictedNextPc
  printLatch "EX/MEM" pipeline.exMem.valid pipeline.exMem.pc pipeline.exMem.instruction
  printLatch "MEM/WB" pipeline.memWb.valid pipeline.memWb.pc pipeline.memWb.instruction

end RvPipeline
