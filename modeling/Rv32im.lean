import Rv32im.Core.Exec
import Rv32im.Core.Loop
import Rv32im.Core.Related
import Rv32im.Core.DirectMapped
import Rv32im.Core.History
import Rv32im.Core.Latest
import Rv32im.Core.Frontier
import Rv32im.Core.Text
import Rv32im.Core.Ostream
import Rv32im.Core.CppText
import Rv32im.Core.Csv
import Rv32im.Core.Pairs
import Rv32im.Core.Counter
import Rv32im.Model.Basic
import Rv32im.Model.Memory
import Rv32im.Model.HexLoader
import Rv32im.Model.Cache
import Rv32im.Model.Counters
import Rv32im.Model.IFetch
import Rv32im.Model.Pipeline
import Rv32im.Model.Cpu
import Rv32im.Step.Effect
import Rv32im.Step.Factor
import Rv32im.Step.Arch
import Rv32im.Step.Throw
import Rv32im.Step.Run
import Rv32im.Timing.FrontEnd
import Rv32im.Timing.Charge
import Rv32im.Timing.Stream
import Rv32im.Timing.Invariant
import Rv32im.Timing.Overlap
import Rv32im.Timing.Sound
import Rv32im.Isa.Spec
import Rv32im.Isa.Machine
import Rv32im.Isa.Fields
import Rv32im.Isa.Values
import Rv32im.Isa.Access
import Rv32im.Isa.Correct
import Rv32im.Isa.Kind
import Rv32im.Isa.Row
import Rv32im.Results.Accounting
import Rv32im.Results.FetchStream
import Rv32im.Results.ExecutionTime
import Rv32im.Results.Isolation
import Rv32im.Results.Latency
import Rv32im.Results.Capacity
import Rv32im.Results.Exceptions
import Rv32im.Results.CacheHistory
import Rv32im.Results.TraceRows
import Rv32im.Results.LoadUse
import Rv32im.Results.ClosedForm
import Rv32im.Results.Reset
import Rv32im.Results.Credit
import Rv32im.Results.Lookahead
import Rv32im.Results.Replays
import Rv32im.Results.FetchLoop
import Rv32im.Results.HoldReplays
import Rv32im.Results.FailedSteps
import Rv32im.Results.DisabledCache
import Rv32im.Results.IsaRun
import Rv32im.Results.Retiming
import Rv32im.Results.InstructionMix
import Rv32im.Results.HexGrammar
import Rv32im.Results.HexImage
import Rv32im.Results.ByteMap
import Rv32im.Results.DataCoverage
import Rv32im.Results.DataCapacity
import Rv32im.Tools.Report
import Rv32im.Tools.TraceFile
import Rv32im.Tools.TraceStream
import Rv32im.Tools.Comparators
import Rv32im.Tools.TraceReport
import Rv32im.Tools.FetchAnalysis
import Rv32im.Tools.RtlSummary
import Rv32im.Tools.Pareto
import Rv32im.Tools.Collector
import Rv32im.Tools.CommandLine
import Rv32im.Tools.Main
import Rv32im.Tools.SystemC
import Rv32im.Tools.Stdout
import Rv32im.Tools.Milestone4
import Rv32im.Tools.DesignSpace
import Rv32im.Results.RegisterTrace
import Rv32im.Results.MemoryTrace
import Rv32im.Results.ControlFlow
import Rv32im.Results.TraceRoundTrip
import Rv32im.Results.Program
import Rv32im.Results.Enlarged
import Rv32im.Results.SystemC
import Rv32im.Results.Correlation
import Rv32im.Results.DesignSpace
