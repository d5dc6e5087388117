import RvPipeline.Model.OStream

/-!
# State dumps

Model of `src/state_dump.cpp`: the register and memory dumps, and the
architectural-state export that the golden comparison writes to a file.

* A loop with a 32-bit counter is followed for `2^32` rounds. By then the counter
  has taken every value, so a loop that is still running never ends (`none`).
* `std::size_t` has 64 bits, more than any index takes. A loop over it is given
  fuel for every index; running out of it also counts as never ending.
-/

namespace RvPipeline

open Isa (Word Reg)

/-- `struct MemoryDumpRange` (`include/state_dump.hpp`, lines 10–13). -/
structure MemoryDumpRange where
  startAddress : Word := 0
  byteCount : Word := 0
  deriving DecidableEq, Repr

/-! ## Ranges -/

/-- `for (uint32_t address = …; address < end; ++address) selected[address] = true;`
    (lines 27–29 and 40–43). -/
def markLoop (last : ℕ) : (fuel : ℕ) → (address : Word) → (selected : List Bool) →
    Option (List Bool)
  | 0, _, _ => none
  | fuel + 1, address, selected =>
    if address.toNat < last then
      markLoop last fuel (address + 1) (selected.set address.toNat true)
    else some selected

/-- The loop over the recorded writes (lines 19–30 and 129–140) or over the requested
    ranges (lines 32–44): they differ in the text of the exception. -/
def markRanges (what : String) (memorySize : ℕ) :
    (ranges : List MemoryDumpRange) → (selected : List Bool) →
    ExceptT OutOfRange Option (List Bool)
  | [], selected => pure selected
  | range :: ranges, selected => do
    let last := range.startAddress.toNat + range.byteCount.toNat
    if last > memorySize then
      throw ⟨what⟩
    let selected ← ExceptT.lift (markLoop last (2 ^ 32) range.startAddress selected)
    markRanges what memorySize ranges selected

/-- `while (address < selected.size() && selected[address] == value) ++address;`
    (lines 50–52, 58–60, 144–146 and 152–154). -/
def skipWhile (value : Bool) (selected : List Bool) : (fuel : ℕ) → (address : ℕ) → Option ℕ
  | 0, _ => none
  | fuel + 1, address =>
    if address < selected.length ∧ selected.getD address false = value then
      skipWhile value selected fuel (address + 1)
    else some address

/-- The loop that collects the ranges (lines 49–65). -/
def collectRanges (selected : List Bool) : (fuel : ℕ) → (address : ℕ) →
    Option (List MemoryDumpRange)
  | 0, _ => none
  | fuel + 1, address =>
    if address < selected.length then do
      let start ← skipWhile false selected (selected.length + 1) address
      if start = selected.length then
        return []
      else
        let stop ← skipWhile true selected (selected.length + 1) start
        let normalized ← collectRanges selected fuel stop
        return ⟨BitVec.ofNat 32 start, BitVec.ofNat 32 (stop - start)⟩ :: normalized
    else return []

/-- `normalize_memory_ranges` (lines 13–68). -/
def normalizeMemoryRanges (cpu : CPU) (requestedRanges : List MemoryDumpRange) :
    ExceptT OutOfRange Option (List MemoryDumpRange) := do
  let selected := List.replicate cpu.memorySize false
  let selected ←
    if requestedRanges = [] then
      markRanges "recorded memory write exceeds simulated RAM bounds" cpu.memorySize
        (cpu.memoryWrites.map fun write => ⟨write.address, write.byteCount⟩) selected
    else
      markRanges "architectural-state memory range exceeds simulated RAM bounds" cpu.memorySize
        requestedRanges selected
  ExceptT.lift (collectRanges selected (selected.length + 1) 0)

/-! ## Register and memory dumps -/

/-- The loop over the registers (lines 80–86). -/
def printRegisterLine (cpu : CPU) (reg : ℕ) : PrintM Unit :=
  let value := (cpu.readReg (BitVec.ofNat 5 reg)).toNat
  emit fun o =>
    let o := ((((o.str "  x").setDec.setw 2).setfill '0').num reg).str " = 0x"
    let o := ((((o.setHex.setw 8).setfill '0').num value).setDec.setfill ' ').str " ("
    (o.num value).str ")\n"

/-- `print_register_dump` (lines 77–87). -/
def printRegisterDump (cpu : CPU) : PrintM Unit := do
  emit fun o => o.str "\nRegister dump:\n"
  (List.range 32).forM (printRegisterLine cpu)

/-- One byte of a row (lines 111–114 and 168–172). -/
def printRowByte (cpu : CPU) (address : Word) : PrintM Unit := do
  emit fun o => ((o.str " ").setw 2).setfill '0'
  let byte ← MonadExcept.ofExcept (cpu.readU8 address)
  emit fun o => o.num byte.toNat

/-- One row (lines 106–116 and 163–174): the two dumps differ in the indentation. -/
def printRow (cpu : CPU) (indent : String) (label : ℕ) (addresses : List Word) : PrintM Unit := do
  emit fun o => ((((o.str indent).setHex.setw 8).setfill '0').num label).str ":"
  addresses.forM (printRowByte cpu)
  emit fun o => (o.setDec.setfill ' ').str "\n"

/-- `for (uint32_t offset = 0; offset < byte_count; offset += 16)` (lines 104–117). -/
def printRows (cpu : CPU) (startAddress byteCount : Word) : (fuel : ℕ) → (offset : Word) →
    PrintM Unit
  | 0, _ => diverge
  | fuel + 1, offset =>
    if offset < byteCount then do
      let address := startAddress + offset
      let bytesThisLine := min 16 (byteCount - offset).toNat
      printRow cpu "  0x" address.toNat
        ((List.range bytesThisLine).map fun i => address + BitVec.ofNat 32 i)
      printRows cpu startAddress byteCount fuel (offset + 16)
    else pure ()

/-- `print_memory_dump` (lines 89–118). -/
def printMemoryDump (cpu : CPU) (startAddress byteCount : Word) : PrintM Unit :=
  let endAddress := startAddress.toNat + byteCount.toNat
  if endAddress > cpu.memorySize then
    throw ⟨"memory dump range exceeds simulated RAM bounds"⟩
  else do
    emit fun o =>
      let o := ((((o.str "\nMemory dump [0x").setHex.setw 8).setfill '0').num
        startAddress.toNat).str "..0x"
      (((o.setw 8).num endAddress).setDec.setfill ' ').str "):\n"
    printRows cpu startAddress byteCount (2 ^ 32) 0

/-- `for (std::size_t row = range_start; row < range_end; row += 16)` (lines 162–175). -/
def printWrittenRows (cpu : CPU) (rangeEnd : ℕ) : (fuel : ℕ) → (row : ℕ) → PrintM Unit
  | 0, _ => diverge
  | fuel + 1, row =>
    if row < rangeEnd then do
      let bytesThisLine := min 16 (rangeEnd - row)
      printRow cpu "    0x" row ((List.range bytesThisLine).map fun i => BitVec.ofNat 32 (row + i))
      printWrittenRows cpu rangeEnd fuel (row + 16)
    else pure ()

/-- The loop that finds and prints the written ranges (lines 142–176). -/
def printWrittenRanges (cpu : CPU) (touched : List Bool) : (fuel : ℕ) → (address : ℕ) →
    PrintM Unit
  | 0, _ => diverge
  | fuel + 1, address =>
    if address < touched.length then do
      let rangeStart ← skipWhile false touched (touched.length + 1) address
      if rangeStart = touched.length then
        return ()
      else
        let rangeEnd ← skipWhile true touched (touched.length + 1) rangeStart
        emit fun o =>
          let o := ((((o.str "  Range [0x").setHex.setw 8).setfill '0').num rangeStart).str "..0x"
          (((o.setw 8).num rangeEnd).setDec.setfill ' ').str "):\n"
        printWrittenRows cpu rangeEnd (rangeEnd + 1) rangeStart
        printWrittenRanges cpu touched fuel rangeEnd
    else return ()

/-- `print_written_memory_dump` (lines 120–177). -/
def printWrittenMemoryDump (cpu : CPU) : PrintM Unit := do
  emit fun o => o.str "\nWritten memory dump:\n"
  if cpu.memoryWrites = [] then
    emit fun o => o.str "  <no memory writes>\n"
  else
    let touched ← call (markRanges "recorded memory write exceeds simulated RAM bounds"
      cpu.memorySize (cpu.memoryWrites.map fun write => ⟨write.address, write.byteCount⟩)
      (List.replicate cpu.memorySize false))
    printWrittenRanges cpu touched (touched.length + 1) 0

/-! ## The architectural-state export -/

/-- `print_hex32` (lines 70–73). -/
def printHex32 (value : Word) : PrintM Unit :=
  emit fun o => ((((o.str "0x").setHex.setw 8).setfill '0').num value.toNat).setDec.setfill ' '

/-- `CPU::kNumRegisters`. -/
def kNumRegisters : ℕ := 32

/-- The loop over the registers (lines 195–200). -/
def printRegister (cpu : CPU) (reg : ℕ) : PrintM Unit := do
  emit fun o => ((((o.str "    \"x").setDec.setw 2).setfill '0').num reg).str "\": \""
  printHex32 (cpu.readReg (BitVec.ofNat 5 reg))
  emit fun o => (o.str "\"").str (if reg + 1 = kNumRegisters then "\n" else ",\n")

/-- The loop over the bytes of a range (lines 215–219). -/
def printByte (cpu : CPU) (range : MemoryDumpRange) (offset : ℕ) : PrintM Unit := do
  emit fun o => (o.setHex.setw 2).setfill '0'
  let byte ← MonadExcept.ofExcept (cpu.readU8 (range.startAddress + BitVec.ofNat 32 offset))
  emit fun o => o.num byte.toNat

/-- The loop over the ranges (lines 208–223). -/
def printRange (cpu : CPU) (ranges : List MemoryDumpRange) (index : ℕ) : PrintM Unit := do
  let range := ranges.getD index {}
  emit fun o => o.str "    \x7b\"start\": \""
  printHex32 range.startAddress
  emit fun o => ((o.str "\", \"length\": ").num range.byteCount.toNat).str ", \"bytes\": \""
  (List.range range.byteCount.toNat).forM (printByte cpu range)
  emit fun o => ((o.setDec.setfill ' ').str "\"\x7d").str
    (if index + 1 = ranges.length then "\n" else ",\n")

/-- `print_architectural_state_json` (lines 179–227). -/
def printArchitecturalStateJson (cpu : CPU) (memoryRanges : List MemoryDumpRange) :
    PrintM Unit := do
  let normalizedRanges ← call (normalizeMemoryRanges cpu memoryRanges)
  emit fun o => ((o.str "\x7b\n").str "  \"schema\": \"rv32i-architectural-state-v1\",\n").str
    "  \"pc\": \""
  printHex32 cpu.pc
  emit fun o => (((o.str "\",\n").str "  \"halted\": ").str
    (if cpu.halted then "true" else "false")).str ",\n"
  emit fun o => o.str "  \"registers\": \x7b\n"
  (List.range kNumRegisters).forM (printRegister cpu)
  emit fun o => (o.str "  \x7d,\n").str "  \"memory\": ["
  emit fun o => if normalizedRanges ≠ [] then o.str "\n" else o
  (List.range normalizedRanges.length).forM (printRange cpu normalizedRanges)
  emit fun o => (o.str "  ]\n").str "\x7d\n"

end RvPipeline
