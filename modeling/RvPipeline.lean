import RvPipeline.Isa.Memory
import RvPipeline.Isa.Instr
import RvPipeline.Isa.Format
import RvPipeline.Isa.Decode
import RvPipeline.Isa.Arch
import RvPipeline.Isa.Run
import RvPipeline.Isa.Effect
import RvPipeline.Isa.Prefetch
import RvPipeline.Isa.Observe
import RvPipeline.Isa.Bytes
import RvPipeline.Isa.Extend
import RvPipeline.Text.Hex
import RvPipeline.Text.Runs
import RvPipeline.Text.Rows
import RvPipeline.Text.Numeral
import RvPipeline.Text.Readable
import RvPipeline.State.Lockstep
import RvPipeline.State.Interleave
import RvPipeline.State.Outcome
import RvPipeline.Model.BranchPredictor
import RvPipeline.Model.Cpu
import RvPipeline.Model.Decoder
import RvPipeline.Model.Encoders
import RvPipeline.Model.Instruction
import RvPipeline.Model.PipelineRegisters
import RvPipeline.Model.Units
import RvPipeline.Model.Stages
import RvPipeline.Model.Main
import RvPipeline.Model.OStream
import RvPipeline.Model.StateDump
import RvPipeline.Model.PipelineTrace
import RvPipeline.Model.SpikeAdapter
import RvPipeline.Model.CommandLine
import RvPipeline.Model.Program
import RvPipeline.Model.SpikeLog
import RvPipeline.Model.GoldenTest
import RvPipeline.Decode.Fields
import RvPipeline.Decode.Kinds
import RvPipeline.Decode.Accepts
import RvPipeline.Decode.RoundTrip
import RvPipeline.Pipeline.Memory
import RvPipeline.Pipeline.Lockstep
import RvPipeline.Pipeline.Datapath
import RvPipeline.Pipeline.Cycle
import RvPipeline.Pipeline.Run
import RvPipeline.Pipeline.Slots
import RvPipeline.Pipeline.Forwarding
import RvPipeline.Pipeline.Invariant
import RvPipeline.Pipeline.Step
import RvPipeline.Pipeline.Front
import RvPipeline.Pipeline.Account
import RvPipeline.Pipeline.Progress
import RvPipeline.Pipeline.Prediction
import RvPipeline.StateDump.Stream
import RvPipeline.StateDump.Ranges
import RvPipeline.StateDump.Json
import RvPipeline.StateDump.Dumps
import RvPipeline.StateDump.Trace
import RvPipeline.Program.Output
import RvPipeline.Properties.Refinement
import RvPipeline.Properties.Predictor
import RvPipeline.Properties.Timing
import RvPipeline.Properties.Halt
import RvPipeline.Properties.Stop
import RvPipeline.Properties.WriteLog
import RvPipeline.Properties.Golden
import RvPipeline.Properties.Bypass
import RvPipeline.Properties.Bubbles
import RvPipeline.Properties.Loop
import RvPipeline.Properties.Trace
import RvPipeline.Properties.TraceText
import RvPipeline.Properties.Dumps
import RvPipeline.Properties.ByteMemory
import RvPipeline.Properties.SpikeAdapter
import RvPipeline.Properties.ForwardingSwitch
import RvPipeline.Properties.Sources
import RvPipeline.Properties.CommandLine
import RvPipeline.Properties.ExitStatus
import RvPipeline.Properties.Files
import RvPipeline.Properties.SpikeOptions
import RvPipeline.Properties.SpikeLog
import RvPipeline.Properties.GoldenTest
import RvPipeline.Properties.TraceTiming
import RvPipeline.Properties.Reachable
import RvPipeline.Properties.TraceWindow
import RvPipeline.Properties.TraceExecution
import RvPipeline.Properties.Prefetcher
import RvPipeline.Properties.MemorySize
import RvPipeline.State.Reaches
import RvPipeline.Isa.Words
import RvPipeline.Isa.Logic
import RvPipeline.Model.AsmFiles
import RvPipeline.Properties.ProgramLogic
import RvPipeline.Properties.MoreCycles
import RvPipeline.Properties.Search
import RvPipeline.Properties.Multiply
import RvPipeline.Sorting.Insertion
import RvPipeline.Properties.InsertionSort
import RvPipeline.Properties.Merge
import RvPipeline.Properties.MergeSort
