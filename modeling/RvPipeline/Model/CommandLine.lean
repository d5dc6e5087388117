import RvPipeline.Model.Main
import RvPipeline.Model.SpikeAdapter
import RvPipeline.Text.Numeral

/-!
# The command line

Model of the argument parsing in `main.cpp`. Texts are lists of characters, as the
operating system passes them.
-/

namespace RvPipeline

open Isa (Word)
open Text

/-- `std::runtime_error` with its text. -/
structure RuntimeError where
  what : String
  deriving DecidableEq, Repr

/-- `struct MemoryExpectation` (lines 27–30). -/
structure MemoryExpectation where
  address : Word := 0
  expectedValue : Word := 0
  deriving DecidableEq, Repr

/-- `struct CliOptions` (lines 32–53): the fields of the run loop and all others. -/
structure MainOptions extends CliOptions where
  config : Config := {}
  programPath : List Char := []
  loadAddress : Word := 0
  memorySize : Word := 64 * 1024
  dumpRegs : Bool := false
  dumpMemory : Bool := false
  dumpWrittenMemory : Bool := false
  dumpStatePath : List Char := []
  stateMemoryRanges : List MemoryDumpRange := []
  dumpMemoryStart : Word := 0
  dumpMemoryLength : Word := 0
  memoryExpectations : List MemoryExpectation := []
  trace : Bool := false
  traceStart : ℕ := 0
  traceLimit : ℕ := 0
  hasTraceLimit : Bool := false
  showHelp : Bool := false
  deriving DecidableEq, Repr

/-- `arg.rfind(text, 0) == 0`. -/
def startsWith (text : String) (arg : List Char) : Bool := text.toList.isPrefixOf arg

/-! ## Values -/

/-- The body of `parse_u64` and `parse_u64_auto`, which differ in the base. -/
def parseUnsigned (base : ℕ) (text : List Char) (optionName : String) : Except RuntimeError ℕ :=
  match stoull text base with
  | .ok (value, parsed) =>
    if parsed ≠ text.length then .error ⟨"invalid value for " ++ optionName⟩ else .ok value
  | .error _ => .error ⟨"invalid value for " ++ optionName⟩

/-- `parse_u64` (lines 79–91). -/
def parseU64 (text : List Char) (optionName : String) : Except RuntimeError ℕ :=
  parseUnsigned 10 text optionName

/-- `parse_u64_auto` (lines 93–105). -/
def parseU64Auto (text : List Char) (optionName : String) : Except RuntimeError ℕ :=
  parseUnsigned 0 text optionName

/-- Two values with a colon between them: the first steps of `parse_memory_dump_range`,
    `parse_state_memory_range` and `parse_memory_expectation`. -/
def parsePair (format firstName secondName : String) (value : List Char) :
    Except RuntimeError (ℕ × ℕ) :=
  match value.idxOf? ':' with
  | none => .error ⟨format⟩
  | some separator => do
    let first ← parseU64Auto (value.take separator) firstName
    let second ← parseU64Auto (value.drop (separator + 1)) secondName
    return (first, second)

/-- `parse_memory_dump_range` (lines 107–126). -/
def parseMemoryDumpRange (value : List Char) (options : MainOptions) :
    Except RuntimeError MainOptions := do
  let values ← parsePair "--dump-memory must use START:LENGTH format"
    "--dump-memory start" "--dump-memory length" value
  if values.1 > uint32Max ∨ values.2 > uint32Max then
    throw ⟨"--dump-memory values must fit in 32 bits"⟩
  else
    return { options with
      dumpMemory := true
      dumpMemoryStart := BitVec.ofNat 32 values.1
      dumpMemoryLength := BitVec.ofNat 32 values.2 }

/-- `parse_state_memory_range` (lines 128–145). -/
def parseStateMemoryRange (value : List Char) : Except RuntimeError MemoryDumpRange := do
  let values ← parsePair "--state-memory must use START:LENGTH format"
    "--state-memory start" "--state-memory length" value
  if values.1 > uint32Max ∨ values.2 > uint32Max then
    throw ⟨"--state-memory values must fit in 32 bits"⟩
  else return ⟨BitVec.ofNat 32 values.1, BitVec.ofNat 32 values.2⟩

/-- `parse_branch_predictor_type` (lines 147–161). -/
def parseBranchPredictorType (value : List Char) : Except RuntimeError BranchPredictorType :=
  if value = "not-taken".toList then .ok .alwaysNotTaken
  else if value = "taken".toList then .ok .alwaysTaken
  else if value = "two-bit".toList then .ok .twoBitSaturating
  else .error ⟨"--branch-predictor must be not-taken, taken, or two-bit"⟩

/-- `parse_memory_expectation` (lines 163–182). -/
def parseMemoryExpectation (value : List Char) (options : MainOptions) :
    Except RuntimeError MainOptions := do
  let values ← parsePair "--expect-memory must use ADDRESS:VALUE format"
    "--expect-memory address" "--expect-memory value" value
  if values.1 > uint32Max - 3 ∨ values.2 > uint32Max then
    throw ⟨"--expect-memory values must fit in a 32-bit word access"⟩
  else
    return { options with
      memoryExpectations :=
        options.memoryExpectations ++ [⟨BitVec.ofNat 32 values.1, BitVec.ofNat 32 values.2⟩] }

/-! ## Arguments -/

/-- One round of the loop in `parse_cli` (lines 188–248). -/
def parseArg (options : MainOptions) (arg : List Char) : Except RuntimeError MainOptions :=
  if arg = "--help".toList ∨ arg = "-h".toList then
    return { options with showHelp := true }
  else if arg = "--trace".toList then
    return { options with trace := true }
  else if startsWith "--trace-start=" arg then do
    let traceStart ← parseU64 (arg.drop 14) "--trace-start"
    return { options with traceStart := traceStart, trace := true }
  else if startsWith "--trace-limit=" arg then do
    let traceLimit ← parseU64 (arg.drop 14) "--trace-limit"
    return { options with traceLimit := traceLimit, hasTraceLimit := true, trace := true }
  else if arg = "--dump-regs".toList then
    return { options with dumpRegs := true }
  else if arg = "--dump-written-memory".toList then
    return { options with dumpWrittenMemory := true }
  else if startsWith "--dump-state=" arg then
    let path := arg.drop 13
    if path = [] then throw ⟨"--dump-state requires a file path"⟩
    else return { options with dumpStatePath := path }
  else if startsWith "--state-memory=" arg then do
    let range ← parseStateMemoryRange (arg.drop 15)
    return { options with stateMemoryRanges := options.stateMemoryRanges ++ [range] }
  else if startsWith "--dump-memory=" arg then
    parseMemoryDumpRange (arg.drop 14) options
  else if startsWith "--expect-memory=" arg then
    parseMemoryExpectation (arg.drop 16) options
  else if startsWith "--max-cycles=" arg then do
    let maxCycles ← parseU64 (arg.drop 13) "--max-cycles"
    return { options with maxCycles := maxCycles }
  else if startsWith "--branch-predictor=" arg then do
    let type ← parseBranchPredictorType (arg.drop 19)
    return { options with config.branchPredictorType := type }
  else if startsWith "--load-address=" arg then do
    let address ← parseU64Auto (arg.drop 15) "--load-address"
    if address > uint32Max then throw ⟨"--load-address must fit in 32 bits"⟩
    else return { options with loadAddress := BitVec.ofNat 32 address }
  else if startsWith "--memory-size=" arg then do
    let size ← parseU64Auto (arg.drop 14) "--memory-size"
    if size = 0 ∨ size > uint32Max then
      throw ⟨"--memory-size must be between 1 and 2^32-1 bytes"⟩
    else return { options with memorySize := BitVec.ofNat 32 size }
  else if startsWith "--retire-count=" arg then do
    let retireCount ← parseU64 (arg.drop 15) "--retire-count"
    return { options with retireCount := retireCount, hasRetireCount := true }
  else if arg.head? = some '-' then
    throw ⟨"unknown option: " ++ String.ofList arg⟩
  else if options.programPath = [] then
    return { options with programPath := arg }
  else throw ⟨"only one program path may be provided"⟩

/-- `parse_cli` (lines 184–257), given the arguments behind the name of the program. -/
def parseCli (args : List (List Char)) : Except RuntimeError MainOptions := do
  let options ← args.foldlM parseArg {}
  if options.stateMemoryRanges ≠ [] ∧ options.dumpStatePath = [] then
    throw ⟨"--state-memory requires --dump-state=FILE"⟩
  else return options

end RvPipeline
