import RvPipeline.Model.CommandLine
import RvPipeline.Model.PipelineTrace

/-!
# The simulator

Model of `main` in `main.cpp`, of `src/program_loader.cpp`, and of
`branch_predictor_type_name`.

* What the operating system provides is an `Environment`.
* The three ratios of the statistics are floating-point numbers. The texts in which
  they are printed belong to the environment.
* The run loop is followed for `max_cycles + 1` rounds; one that is still running
  then never ends (`none`).
* An exception is what the handler in `main` sees of it: its text.
-/

namespace RvPipeline

open Isa (Word Byte)

/-- The name of a file. -/
abbrev Path := List Char

/-- What the program finds. -/
structure Environment where
  /-- `argv[0]`. -/
  executable : Path
  /-- The bytes of a file; `none` if it cannot be opened. -/
  contents : Path → Option (List Byte)
  /-- A file can be opened for writing. -/
  opens : Path → Bool
  /-- After a text has been written to a file: whether the stream is still good, and what
      the file contains once it is closed. -/
  stores : Path → List Char → Bool × List Char
  /-- `std::cout << stats.cpi()`. -/
  cpi : ExecutionStats → List Char
  /-- `std::cout << stats.ipc()`. -/
  ipc : ExecutionStats → List Char
  /-- `std::cout << std::fixed << std::setprecision(2) <<
      stats.branch_prediction_accuracy() * 100.0`. -/
  accuracy : ExecutionStats → List Char

/-- The two standard streams, and the files written so far. -/
structure World where
  cout : OStream := {}
  cerr : List Char := []
  files : Path → Option (List Char) := fun _ => none

/-- A computation of the program; `none` never ends. -/
abbrev MainM := ExceptT RuntimeError (StateT World Option)

/-- Call a function that writes to `std::cout`. -/
def onCout {α : Type} (p : PrintM α) : MainM α := fun w =>
  (p.run.run w.cout).map fun x => (x.1.mapError fun e => ⟨e.what⟩, { w with cout := x.2 })

/-- `std::cout << …`. -/
def print (f : OStream → OStream) : MainM Unit := onCout (emit f)

/-- `if (b) p;` -/
def onlyIf (b : Bool) (p : MainM Unit) : MainM Unit := if b then p else pure ()

/-- A loop that never ends. -/
def never {α : Type} : MainM α := fun _ => none

/-! ## The program to run -/

/-- `struct LoadedProgram` (`include/program_loader.hpp`, lines 9–12). -/
structure LoadedProgram where
  bytes : List Byte := []
  instructionCount : ℕ := 0

/-- `load_binary_program` (`src/program_loader.cpp`, lines 9–29). -/
def loadBinaryProgram (env : Environment) (path : Path) : Except RuntimeError LoadedProgram :=
  match env.contents path with
  | none => .error ⟨"failed to open binary program: " ++ String.ofList path⟩
  | some bytes =>
    if bytes = [] then .error ⟨"binary program contains no instructions"⟩
    else if bytes.length % 4 ≠ 0 then
      .error ⟨"binary program byte count must be a multiple of 4"⟩
    else .ok { bytes := bytes, instructionCount := bytes.length / 4 }

/-- `struct DemoInstruction` (lines 22–25). -/
structure DemoInstruction where
  encoding : Word
  assembly : String

/-- `kDemoProgram` (lines 55–59). -/
def kDemoProgram : List DemoInstruction :=
  [⟨0x00500093, "addi x1, x0, 5"⟩,
   ⟨0x00700113, "addi x2, x0, 7"⟩,
   ⟨0x002081B3, "add x3, x1, x2"⟩]

/-- `append_word_little_endian` (lines 61–66). -/
def appendWordLittleEndian (bytes : List Byte) (word : Word) : List Byte :=
  bytes ++ [(word &&& 0xFF).setWidth 8, ((word >>> 8) &&& 0xFF).setWidth 8,
    ((word >>> 16) &&& 0xFF).setWidth 8, ((word >>> 24) &&& 0xFF).setWidth 8]

/-- `make_demo_program` (lines 68–77). -/
def makeDemoProgram : LoadedProgram :=
  kDemoProgram.foldl
    (fun program instruction =>
      { bytes := appendWordLittleEndian program.bytes instruction.encoding
        instructionCount := program.instructionCount + 1 })
    {}

/-! ## Output -/

/-- `branch_predictor_type_name` (`src/branch_predictor.cpp`, lines 65–76). -/
def branchPredictorTypeName : BranchPredictorType → String
  | .alwaysNotTaken => "always-not-taken"
  | .alwaysTaken => "always-taken"
  | .twoBitSaturating => "two-bit"

/-- `print_usage` (lines 259–278). -/
def printUsage (executable : Path) : MainM Unit := do
  print fun o => ((o.str "Usage: ").put executable).str " [program.bin] [options]\n\n"
  print (·.str "Options:\n")
  print (·.str "  --max-cycles=N\n")
  print (·.str "  --branch-predictor=not-taken|taken|two-bit\n")
  print (·.str "  --load-address=ADDRESS\n")
  print (·.str "  --memory-size=BYTES\n")
  print (·.str "  --retire-count=N\n")
  print (·.str "  --dump-regs\n")
  print (·.str "  --dump-memory=START:LENGTH\n")
  print (·.str "  --dump-written-memory\n")
  print (·.str "  --dump-state=FILE\n")
  print (·.str "  --state-memory=START:LENGTH (repeatable)\n")
  print (·.str "  --expect-memory=ADDRESS:VALUE\n")
  print (·.str "  --trace\n")
  print (·.str "  --trace-start=N\n")
  print (·.str "  --trace-limit=N\n")
  print (·.str "  --help\n")

/-- The loop of `print_demo_program` (lines 284–290), from `address` on. -/
def printDemoInstructions : List DemoInstruction → (address : Word) → MainM Unit
  | [], _ => pure ()
  | instruction :: instructions, address => do
    print fun o =>
      let o := ((((o.str "  0x").setHex.setw 8).setfill '0').num address.toNat).str ": 0x"
      let o := (((o.setw 8).num instruction.encoding.toNat).setDec.setfill ' ').str "    "
      (o.str instruction.assembly).str "\n"
    printDemoInstructions instructions (address + 4)

/-- `print_demo_program` (lines 280–291). -/
def printDemoProgram : MainM Unit := do
  print (·.str "Loaded built-in demo program:\n")
  printDemoInstructions kDemoProgram 0

/-- `print_run_options` (lines 293–303). -/
def printRunOptions (options : MainOptions) : MainM Unit := do
  print (·.str "\nRun options:\n")
  print fun o => ((o.str "  Max cycles:       ").num options.maxCycles).str "\n"
  print fun o =>
    (((o.str "  Load address:     0x").setHex.num options.loadAddress.toNat).setDec).str "\n"
  print fun o => ((o.str "  Memory size:      ").num options.memorySize.toNat).str " bytes\n"
  print fun o => ((o.str "  Branch predictor: ").str
    (branchPredictorTypeName options.config.branchPredictorType)).str "\n"

/-- `should_print_trace` (lines 305–314). -/
def shouldPrintTrace (options : MainOptions) (currentCycle traceLinesPrinted : ℕ) : Bool :=
  if !options.trace || decide (currentCycle < options.traceStart) then false
  else !options.hasTraceLimit || decide (traceLinesPrinted < options.traceLimit)

/-- `print_registers` (lines 316–322). -/
def printRegisters (cpu : CPU) : MainM Unit := do
  print (·.str "\nArchitectural registers:\n")
  (List.range 8).forM fun reg => print fun o =>
    ((((o.str "  x").num reg).str " = ").num (cpu.readReg (BitVec.ofNat 5 reg)).toNat).str "\n"

/-- `print_stats` (lines 324–342). -/
def printStats (env : Environment) (cpu : CPU) : MainM Unit := do
  let stats := cpu.stats
  print (·.str "\nExecution stats:\n")
  print fun o => ((o.str "  Total cycles:          ").num stats.clockCycles).str "\n"
  print fun o => ((o.str "  Instructions retired:  ").num stats.instructionCount).str "\n"
  print fun o => ((o.str "  CPI:                   ").put (env.cpi stats)).str "\n"
  print fun o => ((o.str "  IPC:                   ").put (env.ipc stats)).str "\n"
  print fun o => ((o.str "  Stall cycles:          ").num stats.stallCycles).str "\n"
  print fun o => ((o.str "  Branch predictions:    ").num stats.branchPredictions).str "\n"
  print fun o => ((o.str "  Branch mispredictions: ").num stats.branchMispredictions).str "\n"
  print fun o => ((o.str "  Prediction accuracy:   ").put (env.accuracy stats)).str "%\n"
  print fun o =>
    ((o.str "  Halted:                ").str (if cpu.halted then "yes" else "no")).str "\n"

/-- One round of the loop in `check_memory_expectations` (lines 353–363). -/
def checkExpectation (cpu : CPU) (check : MemoryExpectation) : MainM Bool := do
  let actual ← onCout (MonadExcept.ofExcept (cpu.readU32 check.address))
  let passed := decide (actual = check.expectedValue)
  print fun o =>
    let o := ((o.str "  [").str (if passed then "PASS" else "FAIL")).str "] memory[0x"
    let o := (((o.setHex.setw 8).setfill '0').num check.address.toNat).str "] expected 0x"
    let o := ((o.setw 8).num check.expectedValue.toNat).str ", actual 0x"
    (((o.setw 8).num actual.toNat).setDec.setfill ' ').str "\n"
  return passed

/-- `check_memory_expectations` (lines 344–366). -/
def checkMemoryExpectations (cpu : CPU) (checks : List MemoryExpectation) : MainM Bool := do
  if checks = [] then
    return true
  else
    print (·.str "\nMemory expectations:\n")
    checks.foldlM (fun allPassed check => do return allPassed && (← checkExpectation cpu check))
      true

/-- Run `p` on a fresh stream for the file at `path`. The file is closed whether `p`
    throws or not; the result tells whether the stream was still good. -/
def toFile (env : Environment) (path : Path) (p : PrintM Unit) : MainM Bool := fun w =>
  (p.run.run {}).map fun x =>
    let stored := env.stores path x.2.text
    (x.1.map (fun _ => stored.1) |>.mapError fun e => ⟨e.what⟩,
      { w with files := Function.update w.files path (some stored.2) })

/-- `write_architectural_state` (lines 368–388). -/
def writeArchitecturalState (env : Environment) (options : MainOptions) (cpu : CPU) :
    MainM Unit := do
  let path := options.dumpStatePath
  if path = [] then
    return ()
  else if !env.opens path then
    throw ⟨"failed to open architectural-state file: " ++ String.ofList path⟩
  else
    let good ← toFile env path (printArchitecturalStateJson cpu options.stateMemoryRanges)
    if !good then
      throw ⟨"failed to write architectural-state file: " ++ String.ofList path⟩
    else
      print fun o => ((o.str "\nArchitectural state: ").put path).str "\n"

/-! ## `main` -/

/-- The trace of one round (lines 422–427); returns `trace_lines_printed`. -/
def traceRound (options : MainOptions) (traceLinesPrinted : ℕ) (m : Machine) : MainM ℕ := do
  if shouldPrintTrace options m.cpu.stats.clockCycles traceLinesPrinted then
    onCout (printPipelineTrace m.cpu m.pipeline)
    return traceLinesPrinted + 1
  else return traceLinesPrinted

/-- `rv32i::run_pipeline_cycle(cpu, pipeline)`. -/
def cycle (m : Machine) : MainM Machine :=
  match runPipelineCycle m with
  | .ok _ m => return m
  | .error e _ => throw ⟨e.what⟩

/-- The loop (lines 417–429), from `trace_lines_printed` on. -/
def simulate (options : MainOptions) : (fuel : ℕ) → (traceLinesPrinted : ℕ) → Machine →
    MainM Machine
  | 0, _, _ => never
  | fuel + 1, traceLinesPrinted, m =>
    if keepsRunning options.toCliOptions m.cpu then do
      let traceLinesPrinted ← traceRound options traceLinesPrinted m
      let m ← cycle m
      simulate options fuel traceLinesPrinted m
    else return m

/-- The exit status. -/
inductive ExitStatus
  | success
  | failure
  deriving DecidableEq, Repr

/-- The image to run (lines 400–410). -/
def loadImage (env : Environment) (options : MainOptions) : MainM LoadedProgram := do
  if options.programPath = [] then
    printDemoProgram
    return makeDemoProgram
  else
    let program ← MonadExcept.ofExcept (loadBinaryProgram env options.programPath)
    print fun o =>
      let o := ((o.str "Loaded binary image: ").put options.programPath).str " ("
      ((((o.num program.bytes.length).str " byte(s), ").num program.instructionCount).str
        " word(s))\n")
    return program

/-- `CPU cpu(options.memory_size, options.config)` and `cpu.load_program(…)`
    (lines 412–414). -/
def boot (options : MainOptions) (program : LoadedProgram) : MainM Machine :=
  match CPU.loadProgram program.bytes options.loadAddress
      (CPU.new options.memorySize.toNat options.config) with
  | .ok _ cpu => return { cpu := cpu }
  | .error e _ => throw ⟨e.what⟩

/-- The output behind the loop (lines 430–445). -/
def report (env : Environment) (options : MainOptions) (cpu : CPU) : MainM Unit := do
  printRegisters cpu
  printStats env cpu
  onlyIf options.dumpRegs (onCout (printRegisterDump cpu))
  onlyIf options.dumpMemory
    (onCout (printMemoryDump cpu options.dumpMemoryStart options.dumpMemoryLength))
  onlyIf options.dumpWrittenMemory (onCout (printWrittenMemoryDump cpu))
  writeArchitecturalState env options cpu

/-- The body of the `try` block (lines 394–463). -/
def mainBody (env : Environment) (args : List Path) : MainM ExitStatus := do
  let options ← MonadExcept.ofExcept (parseCli args)
  if options.showHelp then
    printUsage env.executable
    return .success
  else
    let program ← loadImage env options
    let m ← boot options program
    printRunOptions options
    let m ← simulate options (options.maxCycles + 1) 0 m
    report env options m.cpu
    let memoryExpectationsPassed ← checkMemoryExpectations m.cpu options.memoryExpectations
    if !m.cpu.halted && !reachedTarget options.toCliOptions m.cpu then
      modify fun w => { w with
        cerr := w.cerr ++ "\nSimulation stopped before all instructions retired\n".toList }
      return .failure
    else if !memoryExpectationsPassed then
      return .failure
    else return .success

/-- `main` (lines 392–468). -/
def main (env : Environment) (args : List Path) (w : World) : Option (ExitStatus × World) :=
  ((mainBody env args).run.run w).map fun x =>
    match x.1 with
    | .ok status => (status, x.2)
    | .error e => (.failure, { x.2 with
        cerr := x.2.cerr ++ "error: ".toList ++ e.what.toList ++ "\n".toList ++
          "Run with --help for usage.\n".toList })

end RvPipeline
