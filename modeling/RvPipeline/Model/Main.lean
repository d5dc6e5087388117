import RvPipeline.Model.Stages

/-!
# The run loop

Model of the loop in `main.cpp`. Printing a trace of the pipeline does not change
the machine and is left out.
-/

namespace RvPipeline

/-- The fields of `struct CliOptions` (`main.cpp`, lines 32–53) that the loop reads. -/
structure CliOptions where
  maxCycles : ℕ := 100
  retireCount : ℕ := 0
  hasRetireCount : Bool := false
  deriving DecidableEq, Repr

/-- The condition of the `while` loop (lines 418–421). -/
def keepsRunning (options : CliOptions) (cpu : CPU) : Bool :=
  !cpu.halted &&
    (!options.hasRetireCount || decide (cpu.stats.instructionCount < options.retireCount)) &&
    decide (cpu.stats.clockCycles < options.maxCycles)

/-- The loop (lines 418–428), for at most `fuel` rounds. -/
def runLoop (options : CliOptions) : (fuel : ℕ) → Sim Unit
  | 0 => pure ()
  | fuel + 1 => do
    if keepsRunning options (← get).cpu then
      runPipelineCycle
      runLoop options fuel

/-- `reached_target` (lines 451–453). -/
def reachedTarget (options : CliOptions) (cpu : CPU) : Bool :=
  options.hasRetireCount && decide (cpu.stats.instructionCount ≥ options.retireCount)

end RvPipeline
