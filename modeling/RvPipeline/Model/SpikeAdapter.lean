import RvPipeline.Model.StateDump

/-!
# The Spike state adapter

Model of `tools/spike_state_adapter.cpp` from the parsed input on: `convert` is
given what `parse_registers` and `parse_standalone_hex_values` return.

* The register map is the function that `at` looks names up with.
* The file that is written can always be opened.
-/

namespace RvPipeline

open Isa (Word Reg)

/-- `kAbiRegisterNames` (lines 20–25). -/
def kAbiRegisterNames : List String :=
  ["zero", "ra", "sp", "gp", "tp", "t0", "t1", "t2",
   "s0", "s1", "a0", "a1", "a2", "a3", "a4", "a5",
   "a6", "a7", "s2", "s3", "s4", "s5", "s6", "s7",
   "s8", "s9", "s10", "s11", "t3", "t4", "t5", "t6"]

/-- `struct Options` (lines 27–33), without the paths. -/
structure Options where
  haltPc : Word
  memoryRanges : List MemoryDumpRange

/-- What the adapter throws, with its text. -/
inductive AdapterException
  | runtimeError (what : String)
  | outOfRange (what : String)
  deriving DecidableEq, Repr

/-- A computation of the adapter before it writes; `none` never ends. -/
abbrev AdapterM := ExceptT AdapterException Option

/-- `UINT32_MAX`. -/
def uint32Max : ℕ := 0xFFFFFFFF

/-- `required_memory_size` (lines 146–160). -/
def requiredMemorySize (ranges : List MemoryDumpRange) (haltPc : Word) : AdapterM ℕ :=
  let last := ranges.foldl
    (fun last range => max last (range.startAddress.toNat + range.byteCount.toNat))
    (haltPc.toNat + 4)
  if last > uint32Max then throw (.runtimeError "architectural state exceeds 32-bit memory")
  else pure last

/-- The loop over the registers (lines 181–184). -/
def writeRegisters (registers : String → Option Word) (cpu : CPU) : AdapterM CPU :=
  (List.range kAbiRegisterNames.length).foldlM
    (fun cpu index =>
      match registers (kAbiRegisterNames.getD index "") with
      | some value => pure (cpu.writeReg (BitVec.ofNat 5 index) value)
      | none => throw (.outOfRange "unordered_map::at"))
    cpu

/-- `for (uint32_t offset = 0; offset < range.byte_count; offset += 4)` (lines 188–191),
    from `offset` and `value_index` on. The number of values has been checked, so the
    index is always below it. -/
def writeWords (values : List Word) (range : MemoryDumpRange) : (fuel : ℕ) → (offset : Word) →
    (valueIndex : ℕ) → CPU → AdapterM (ℕ × CPU)
  | 0, _, _, _ => ExceptT.lift none
  | fuel + 1, offset, valueIndex, cpu =>
    if offset < range.byteCount then
      match CPU.writeU32 (range.startAddress + offset) (values.getD valueIndex 0) cpu with
      | .ok _ cpu => writeWords values range fuel (offset + 4) (valueIndex + 1) cpu
      | .error e _ => throw (.outOfRange e.what)
    else pure (valueIndex, cpu)

/-- The loop over the ranges (lines 186–192). -/
def writeRanges (values : List Word) : List MemoryDumpRange → (valueIndex : ℕ) → CPU →
    AdapterM CPU
  | [], _, cpu => pure cpu
  | range :: ranges, valueIndex, cpu => do
    let (valueIndex, cpu) ← writeWords values range (2 ^ 32) 0 valueIndex cpu
    writeRanges values ranges valueIndex cpu

/-- `convert` up to the state it exports (lines 167–197). -/
def convertState (options : Options) (registers : String → Option Word) (values : List Word) :
    AdapterM CPU := do
  let expectedWords := options.memoryRanges.foldl
    (fun expectedWords range => expectedWords + (range.byteCount / 4).toNat) 0
  if values.length ≠ expectedWords + 1 then
    throw (.runtimeError "Spike output did not contain the expected PC and memory words")
  else if values.head? ≠ some options.haltPc then
    throw (.runtimeError "Spike stopped at an unexpected PC")
  else
    let size ← requiredMemorySize options.memoryRanges options.haltPc
    let cpu ← writeRegisters registers (CPU.new size)
    let cpu ← writeRanges values options.memoryRanges 1 cpu
    return (cpu.setPc (options.haltPc + 4)).halt

/-- `convert` (lines 162–206), writing to `output`. -/
def convert (options : Options) (registers : String → Option Word) (values : List Word) :
    ExceptT AdapterException (StateT OStream Option) Unit := do
  let cpu ← (fun output => (convertState options registers values).run.map (·, output))
  ExceptT.adapt (fun e => .outOfRange e.what) (printArchitecturalStateJson cpu options.memoryRanges)

end RvPipeline
