import RvPipeline.Model.Program

/-!
# Reading Spike's output

Model of the parsing in `tools/spike_state_adapter.cpp`, and of its `main`.

* A text file is the list of its bytes as characters.
* The two regular expressions are matched without backtracking: no part of them can
  give a character to the part behind it.
* The register map is the list of its entries.
-/

namespace RvPipeline

open Isa (Word Byte)
open Text

/-- `struct Options` (lines 27–33). -/
structure SpikeOptions extends Options where
  haltPc := 0
  memoryRanges := []
  inputPath : Path := []
  outputPath : Path := []
  hasHaltPc : Bool := false

/-- `parse_u32` (lines 35–46). -/
def parseU32 (text : List Char) (name : String) : Except RuntimeError Word :=
  match stoull text 0 with
  | .ok (value, parsed) =>
    if parsed ≠ text.length ∨ value > uint32Max then .error ⟨"invalid value for " ++ name⟩
    else .ok (BitVec.ofNat 32 value)
  | .error _ => .error ⟨"invalid value for " ++ name⟩

/-- `parse_memory_range` (lines 48–65). -/
def parseMemoryRange (text : List Char) : Except RuntimeError MemoryDumpRange :=
  match text.idxOf? ':' with
  | none => .error ⟨"--memory-range must use START:LENGTH format"⟩
  | some separator => do
    let start ← parseU32 (text.take separator) "--memory-range start"
    let length ← parseU32 (text.drop (separator + 1)) "--memory-range length"
    if start % 4 ≠ 0 ∨ length = 0 ∨ length % 4 ≠ 0 then
      throw ⟨"Spike memory ranges must be nonempty and 4-byte aligned"⟩
    else return ⟨start, length⟩

/-- One round of the loop in `parse_options` (lines 70–86). -/
def parseOption (options : SpikeOptions) (argument : List Char) :
    Except RuntimeError SpikeOptions :=
  if startsWith "--input=" argument then
    return { options with inputPath := argument.drop 8 }
  else if startsWith "--output=" argument then
    return { options with outputPath := argument.drop 9 }
  else if startsWith "--halt-pc=" argument then do
    let haltPc ← parseU32 (argument.drop 10) "--halt-pc"
    return { options with haltPc := haltPc, hasHaltPc := true }
  else if startsWith "--memory-range=" argument then do
    let range ← parseMemoryRange (argument.drop 15)
    return { options with memoryRanges := options.memoryRanges ++ [range] }
  else throw ⟨"unknown option: " ++ String.ofList argument⟩

/-- `parse_options` (lines 67–95). -/
def parseOptions (arguments : List (List Char)) : Except RuntimeError SpikeOptions := do
  let options ← arguments.foldlM parseOption {}
  if options.inputPath = [] ∨ options.outputPath = [] ∨ options.hasHaltPc = false then
    throw ⟨"required options: --input, --output, and --halt-pc"⟩
  else return options

/-- `[a-z]`. -/
def isLower (c : Char) : Bool := 97 ≤ c.toNat && c.toNat ≤ 122

/-- `[a-z0-9]`. -/
def isNameChar (c : Char) : Bool := isLower c || (48 ≤ c.toNat && c.toNat ≤ 57)

/-- `0x[0-9a-fA-F]+` at the start of the text: the match and what follows it. -/
def matchHex (text : List Char) : Option (List Char × List Char) :=
  let digits := (text.drop 2).takeWhile (isDigit 16)
  if text.take 2 = "0x".toList ∧ digits ≠ [] then
    some ("0x".toList ++ digits, (text.drop 2).dropWhile (isDigit 16))
  else none

/-- `([a-z][a-z0-9]*):\s*(0x[0-9a-fA-F]+)` at the start of the text: the two groups, and
    what follows the match. -/
def matchRegister (text : List Char) : Option ((List Char × List Char) × List Char) :=
  let rest := text.dropWhile isNameChar
  if text.head?.any isLower ∧ rest.head? = some ':' then
    (matchHex (rest.tail.dropWhile isSpace)).map fun x => ((text.takeWhile isNameChar, x.1), x.2)
  else none

/-- The matches that `std::sregex_iterator` finds (lines 113–119). Each round consumes a
    character, so that `fuel` for every character suffices. -/
def registerMatches : (fuel : ℕ) → (text : List Char) → List (List Char × List Char)
  | 0, _ => []
  | fuel + 1, text =>
    match matchRegister text with
    | some (entry, rest) => entry :: registerMatches fuel rest
    | none => if text = [] then [] else registerMatches fuel text.tail

/-- The calls of `std::getline`, with `line` read so far. At the end of the text, an empty
    line is none. -/
def linesFrom (line : List Char) : List Char → List (List Char)
  | [] => if line = [] then [] else [line]
  | c :: text => if c = '\n' then line :: linesFrom [] text else linesFrom (line ++ [c]) text

/-- The lines that `std::getline` reads. -/
def linesOf (text : List Char) : List (List Char) := linesFrom [] text

/-- `std::regex_match(line, match, value_pattern)` with `\s*(0x[0-9a-fA-F]+)\s*`. -/
def standaloneValue (line : List Char) : Option (List Char) :=
  match matchHex (line.dropWhile isSpace) with
  | some (value, rest) => if rest.dropWhile isSpace = [] then some value else none
  | none => none

/-- What a handler for `std::exception` sees. -/
def AdapterException.what : AdapterException → String
  | .runtimeError what => what
  | .outOfRange what => what

end RvPipeline
