import Ntprof.Lib.KeyedList
import Ntprof.Lib.Chains
import Ntprof.Lib.SignedSum
import Ntprof.Lib.Bytes
import Ntprof.Record
import Ntprof.Model
import Ntprof.Proofs.ModelProofs
import Ntprof.Proofs.StageProofs
import Ntprof.Proofs.OutcomeProofs
import Ntprof.Proofs.ClockProofs
import Ntprof.Proofs.BoundProofs
import Ntprof.Join
import Ntprof.PlainJoin
import Ntprof.Proofs.JoinProofs
import Ntprof.Util
import Ntprof.Proofs.UtilProofs
import Ntprof.Config
import Ntprof.Proofs.SizeFilterProofs
import Ntprof.Proofs.IniProofs
import Ntprof.Stats
import Ntprof.TraceFile
import Ntprof.TraceFormat
import Ntprof.Proofs.TraceFormatProofs
import Ntprof.Proofs.OldFilesProofs
import Ntprof.Offline
import Ntprof.Lib.FifoMatch
import Ntprof.Lib.FifoBlocks
import Ntprof.Proofs.OfflineProofs
import Ntprof.Proofs.JoinAccountProofs
import Ntprof.PollLoop
import Ntprof.Proofs.PollLoopProofs
import Ntprof.Proofs.ExpiryProofs
import Ntprof.Proofs.FileOrderProofs
import Ntprof.Lib.Interpolation
import Ntprof.Proofs.QuantileProofs
import Ntprof.Proofs.StatsProofs
import Ntprof.Proofs.GroupProofs
import Ntprof.Proofs.StatsOrderProofs
import Ntprof.Proofs.SessionNameProofs
import Ntprof.Report
import Ntprof.Proofs.ReportProofs
import Ntprof.Lib.Json
import Ntprof.JsonReport
import Ntprof.Proofs.JsonReportProofs
import Ntprof.ReportText
import Ntprof.Lib.InsertBack
import Ntprof.Proofs.GroupOrderProofs
import Ntprof.Session
import Ntprof.Proofs.SessionProofs
import Ntprof.Bpf.Common
import Ntprof.Lib.WordMix
import Ntprof.Bpf.Proofs.SamplingProofs
import Ntprof.Bpf.Target
import Ntprof.Bpf.TargetTcp
import Ntprof.Bpf.TargetRdma
import Ntprof.Bpf.Host
import Ntprof.Bpf.HostTcp
import Ntprof.Bpf.HostRdma
import Ntprof.Lib.ClockRun
import Ntprof.Bpf.Clock
import Ntprof.Proofs.ReceiveProofs
import Ntprof.Lib.SlotTable
import Ntprof.Bpf.Proofs.TargetProofs
import Ntprof.Bpf.Proofs.HostProofs
import Ntprof.Bpf.Proofs.WritesProofs
import Ntprof.Bpf.Proofs.ArrivalProofs
import Ntprof.Lib.MeasuredSpan
import Ntprof.Bpf.DataCalls
import Ntprof.Bpf.Proofs.WritePhaseProofs
import Ntprof.Bpf.Proofs.ReadPhaseProofs
import Ntprof.Bpf.Proofs.CidIndexProofs
import Ntprof.Bpf.Proofs.AccountingProofs
import Ntprof.Bpf.Commands
import Ntprof.Bpf.Proofs.CommandsProofs
import Ntprof.Bpf.Attempts
import Ntprof.Bpf.Proofs.AttemptsProofs
import Ntprof.Lib.PrefixRun
import Ntprof.Bpf.QueueCounts
import Ntprof.Bpf.Proofs.MapProofs
import Ntprof.Bpf.Proofs.BalancedProofs
import Ntprof.Bpf.Proofs.HostCountProofs
import Ntprof.Bpf.Proofs.TargetCountProofs
import Ntprof.Bpf.Proofs.QueueCountProofs
import Ntprof.Lib.CpuContext
import Ntprof.Bpf.Contexts
import Ntprof.Bpf.Proofs.ContextsProofs
import Ntprof.Loader
import Ntprof.Proofs.LoaderProofs
import Ntprof.Lib.Tickets
import Ntprof.Bpf.Spdk
import Ntprof.Lib.Bisect
import Ntprof.Bpf.Proofs.RingProofs
import Ntprof.Bpf.InFlight
import Ntprof.Bpf.Proofs.InFlightProofs
import Ntprof.Lib.SharedSlots
import Ntprof.Bpf.HookSteps
import Ntprof.Bpf.Proofs.HookAccessProofs
import Ntprof.Bpf.Proofs.HookWholeProofs
import Ntprof.Bpf.Proofs.HookSlotsProofs
import Ntprof.Bpf.Proofs.HookRunProofs
import Ntprof.Bpf.Proofs.EmissionProofs
import Ntprof.Spdk.Times
import Ntprof.Spdk.Proofs.SentTimesProofs
import Ntprof.Spdk.Proofs.PostTimesProofs
import Ntprof.Lib.WorkSharing
import Ntprof.ParallelFor
import Ntprof.Proofs.ParallelForProofs
import Ntprof.Programs
import Ntprof.Proofs.ProgramsProofs
import Ntprof.Attach
import Ntprof.Proofs.AttachProofs
import Ntprof.Supervisor
import Ntprof.Proofs.SupervisorProofs
import Ntprof.Proofs.SupervisorRunProofs
import Ntprof.Recording
import Ntprof.Proofs.RecordingProofs
import Ntprof.Lib.Getopt
import Ntprof.CommandLine
import Ntprof.Proofs.CommandLineProofs
import Ntprof.Online
import Ntprof.Proofs.OnlineProofs
import Ntprof.Lib.WordSet
import Ntprof.SessionFilter
import Ntprof.Proofs.PrintedProofs
import Ntprof.Proofs.SessionFilterProofs
import Ntprof.ClockOffset
import Ntprof.Proofs.ClockOffsetProofs
import Ntprof.SpdkProcs
import Ntprof.Proofs.SpdkMapsProofs
import Ntprof.Proofs.SpdkGateProofs
import Ntprof.Proofs.SpdkProcsProofs
import Ntprof.Lib.CountTable
import Ntprof.Proofs.SpdkProbesProofs
import Ntprof.Compare
import Ntprof.Proofs.CompareProofs
import Ntprof.Lib.Separated
import Ntprof.Dump
import Ntprof.Proofs.DumpProofs
