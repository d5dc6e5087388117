import RvPipeline.Isa.Instr
import RvPipeline.Model.BranchPredictor

/-!
# The CPU

Model of `include/cpu.hpp` and `src/cpu.cpp`: registers, program counter,
memory with its write log, halt flag, statistics and branch predictor.

A member function that can throw runs in `CpuM`, where an exception keeps the
state reached so far, as a C++ exception does. `const` members that can throw
are functions of the CPU into `Except`.

* A register index is a `Reg`, so `validate_register_index` cannot fail.
* The `uint64_t` statistics are natural numbers: the loop of `main` keeps them below
  `2 ^ 64` (`counters_fit` in `Properties/MoreCycles`).
* `memory_[address + i]` is indexed with 32-bit arithmetic, as in the source.
-/

namespace RvPipeline

open Isa (Word Byte Reg Mem)

/-- `std::out_of_range` with its text. -/
structure OutOfRange where
  what : String
  deriving DecidableEq, Repr

/-- `struct ExecutionStats` (`include/cpu.hpp`, lines 13–23). -/
structure ExecutionStats where
  clockCycles : ℕ := 0
  instructionCount : ℕ := 0
  stallCycles : ℕ := 0
  branchPredictions : ℕ := 0
  branchMispredictions : ℕ := 0
  deriving DecidableEq, Repr

/-- `struct MemoryWrite` (`include/cpu.hpp`, lines 25–28). -/
structure MemoryWrite where
  address : Word
  byteCount : Word
  deriving DecidableEq, Repr

/-- `class CPU` (`include/cpu.hpp`, lines 30–90). -/
structure CPU where
  config : Config := {}
  branchPredictor : BranchPredictor := {}
  regs : Reg → Word := fun _ => 0
  pc : Word := 0
  halted : Bool := false
  memory : Mem
  memoryWrites : List MemoryWrite := []
  stats : ExecutionStats := {}

/-- A member function that may change the CPU and may throw. -/
abbrev CpuM := EStateM OutOfRange CPU

/-- Rethrow the exception of a `const` member. -/
def liftExcept {σ α : Type} : Except OutOfRange α → EStateM OutOfRange σ α
  | .ok a => pure a
  | .error e => throw e

namespace CPU

/-- `CPU::CPU(memory_size_bytes, config)` (`src/cpu.cpp`, lines 33–34). -/
def new (memorySizeBytes : ℕ) (config : Config := {}) : CPU :=
  { config := config, memory := List.replicate memorySizeBytes 0 }

/-- `CPU::memory_size` (lines 146–148). -/
def memorySize (cpu : CPU) : ℕ := cpu.memory.length

/-- `CPU::set_pc` (lines 57–59). -/
def setPc (cpu : CPU) (nextPc : Word) : CPU := { cpu with pc := nextPc }

/-- `CPU::read_reg` (lines 65–74): `x0` reads as zero. -/
def readReg (cpu : CPU) (regIndex : Reg) : Word := if regIndex = 0#5 then 0#32 else cpu.regs regIndex

/-- `CPU::write_reg` (lines 76–85): writes to `x0` never change the state. -/
def writeReg (cpu : CPU) (regIndex : Reg) (value : Word) : CPU :=
  if regIndex = 0#5 then cpu else { cpu with regs := Function.update cpu.regs regIndex value }

/-- `CPU::validate_memory_access` (lines 207–216). -/
def validateMemoryAccess (cpu : CPU) (address : Word) (width : ℕ) : Except OutOfRange Unit :=
  if width = 0 then .ok ()
  else
    let start := address.toNat
    if start > cpu.memorySize ∨ width > cpu.memorySize - start then
      .error ⟨"memory access exceeds simulated RAM bounds"⟩
    else .ok ()

/-- `CPU::record_memory_write` (lines 218–220). -/
def recordMemoryWrite (cpu : CPU) (address byteCount : Word) : CPU :=
  { cpu with memoryWrites := cpu.memoryWrites ++ [⟨address, byteCount⟩] }

/-- `CPU::read_u8` (lines 87–90). -/
def readU8 (cpu : CPU) (address : Word) : Except OutOfRange Byte := do
  cpu.validateMemoryAccess address 1
  return cpu.memory.byte address

/-- `CPU::read_u16` (lines 92–97). -/
def readU16 (cpu : CPU) (address : Word) : Except OutOfRange (BitVec 16) := do
  cpu.validateMemoryAccess address 2
  return (cpu.memory.byte address).setWidth 16 |||
    ((cpu.memory.byte (address + 1)).setWidth 16 <<< 8)

/-- `CPU::read_u32` (lines 99–107). -/
def readU32 (cpu : CPU) (address : Word) : Except OutOfRange Word := do
  cpu.validateMemoryAccess address 4
  return (cpu.memory.byte address).setWidth 32 |||
    ((cpu.memory.byte (address + 1)).setWidth 32 <<< 8) |||
    ((cpu.memory.byte (address + 2)).setWidth 32 <<< 16) |||
    ((cpu.memory.byte (address + 3)).setWidth 32 <<< 24)

/-- The assignment `memory_[address] = value`. -/
def assignByte (cpu : CPU) (address : Word) (value : Byte) : CPU :=
  { cpu with memory := cpu.memory.setByte address value }

/-- `CPU::write_u8` (lines 109–113). -/
def writeU8 (address : Word) (value : Byte) : CpuM Unit := do
  liftExcept ((← get).validateMemoryAccess address 1)
  modify (·.assignByte address value)
  modify (·.recordMemoryWrite address 1)

/-- `CPU::write_u16` (lines 115–121). -/
def writeU16 (address : Word) (value : BitVec 16) : CpuM Unit := do
  liftExcept ((← get).validateMemoryAccess address 2)
  modify (·.assignByte address ((value &&& 0xFF).setWidth 8))
  modify (·.assignByte (address + 1) (((value >>> 8) &&& 0xFF).setWidth 8))
  modify (·.recordMemoryWrite address 2)

/-- `CPU::write_u32` (lines 123–131). -/
def writeU32 (address : Word) (value : Word) : CpuM Unit := do
  liftExcept ((← get).validateMemoryAccess address 4)
  modify (·.assignByte address ((value &&& 0xFF).setWidth 8))
  modify (·.assignByte (address + 1) (((value >>> 8) &&& 0xFF).setWidth 8))
  modify (·.assignByte (address + 2) (((value >>> 16) &&& 0xFF).setWidth 8))
  modify (·.assignByte (address + 3) (((value >>> 24) &&& 0xFF).setWidth 8))
  modify (·.recordMemoryWrite address 4)

/-- `CPU::load_program` (lines 133–144); `std::copy` overwrites
    `program.size()` bytes from `base_address` on. -/
def loadProgram (program : List Byte) (baseAddress : Word := 0) : CpuM Unit := do
  if program = [] then
    return ()
  else
    liftExcept ((← get).validateMemoryAccess baseAddress program.length)
    modify fun cpu => { cpu with
      memory := cpu.memory.take baseAddress.toNat ++ program ++
        cpu.memory.drop (baseAddress.toNat + program.length)
      pc := baseAddress
      halted := false
      memoryWrites := [] }

/-- `CPU::tick` (lines 174–176). -/
def tick (cpu : CPU) : CPU :=
  { cpu with stats.clockCycles := cpu.stats.clockCycles + 1 }

/-- `CPU::predict_branch` (lines 178–181). -/
def predictBranch (cpu : CPU) (branchPc : Word) : Bool :=
  cpu.branchPredictor.predict branchPc cpu.config.branchPredictorType

/-- `CPU::update_branch_predictor` (lines 183–187). -/
def updateBranchPredictor (cpu : CPU) (branchPc : Word) (actualTaken : Bool) : CPU :=
  { cpu with branchPredictor :=
      cpu.branchPredictor.update branchPc actualTaken cpu.config.branchPredictorType }

/-- `CPU::halt` (lines 197–199). -/
def halt (cpu : CPU) : CPU := { cpu with halted := true }

end CPU

end RvPipeline
