import RvPipeline.Model.SpikeLog

/-!
# The golden test

Model of one round of the loop in `scripts/run_spike_golden.sh` (lines 68–169), from
the simulator's run on. The program has been assembled and linked, and Spike has
written its output: both are files of the environment.
-/

namespace RvPipeline

/-- A line of the manifest, with the addresses of its symbols. -/
structure GoldenCase where
  name : List Char
  /-- `start_address`, `halt_address` (lines 93–94). -/
  startAddress : List Char
  haltAddress : List Char
  /-- `address` and `length` of every entry (lines 101–103). -/
  memoryEntries : List (List Char × List Char)
  maxCycles : List Char
  /-- `simulator_memory` (line 8). -/
  simulatorMemory : List Char := "0x20000".toList

namespace GoldenCase

/-- `case_dir` (line 73). -/
def caseDir (c : GoldenCase) : Path := "build/golden/".toList ++ c.name

def binaryFile (c : GoldenCase) : Path := c.caseDir ++ '/' :: c.name ++ ".bin".toList

def spikeRaw (c : GoldenCase) : Path := c.caseDir ++ "/spike.raw".toList

def simulatorState (c : GoldenCase) : Path := c.caseDir ++ "/simulator-state.json".toList

def spikeState (c : GoldenCase) : Path := c.caseDir ++ "/spike-state.json".toList

/-- `${address}:${length}`. -/
def entryText (entry : List Char × List Char) : List Char := entry.1 ++ ':' :: entry.2

/-- The arguments of the simulator (lines 127–132). -/
def simulatorArgs (c : GoldenCase) : List Path :=
  [c.binaryFile,
    "--load-address=".toList ++ c.startAddress,
    "--memory-size=".toList ++ c.simulatorMemory,
    "--max-cycles=".toList ++ c.maxCycles,
    "--dump-state=".toList ++ c.simulatorState] ++
  c.memoryEntries.map fun entry => "--state-memory=".toList ++ entryText entry

/-- The arguments of the adapter (lines 153–157). -/
def adapterArgs (c : GoldenCase) : List Path :=
  ["--input=".toList ++ c.spikeRaw,
    "--output=".toList ++ c.spikeState,
    "--halt-pc=".toList ++ c.haltAddress] ++
  c.memoryEntries.map fun entry => "--memory-range=".toList ++ entryText entry

end GoldenCase

end RvPipeline
