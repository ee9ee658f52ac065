import Robot.Lib.Machine
import Robot.Lib.OneShot
import Robot.Lib.Pow2
import Robot.Lib.MapHistory
import Robot.Data.RingBuffer
import Robot.Base.TaskAction
import Robot.Data.SendReq
import Robot.Data.RpcMatch
import Robot.Data.RpcSlots
import Robot.Case.Params
import Robot.Case.Pace
import Robot.Mode.Solo
import Robot.Mode.SoloExact
import Robot.Mode.TaskQueue
import Robot.Mode.TaskOwner
import Robot.Mode.NoZombie
import Robot.Mode.NoOrphan
import Robot.Mode.Balance
import Robot.Mode.Distribute
import Robot.Mode.AgentRegistry
import Robot.Mode.Submission
import Robot.Mode.SubmissionRaces
import Robot.Mode.CancelWatch
import Robot.Mode.ResultTrail
import Robot.Mode.Correlation
import Robot.Lib.Int64
import Robot.Lib.Grouped
import Robot.Lib.Tally
import Robot.Report.Tracing
import Robot.Report.FlushRace
import Robot.Report.Compact
import Robot.Report.Summary
import Robot.Report.Aggregate
import Robot.Report.Redis
import Robot.Report.ReadReport
import Robot.Lib.Blocks
import Robot.Gateway.Xxtea
import Robot.Gateway.Cipher
import Robot.Lib.Word32
import Robot.Lib.Stream
import Robot.Gateway.Framing
import Robot.Gateway.FrameStream
import Robot.Gateway.Murmur
import Robot.Gateway.Session
import Robot.Gateway.Codes
import Robot.Lib.FlatBuffers
import Robot.Lib.Counter
import Robot.Gateway.Message
import Robot.Gateway.Compression
import Robot.Gateway.Handshake
import Robot.Gateway.MessageRoundTrip
import Robot.Gateway.PostRoundTrip
import Robot.Gateway.SendNonce
import Robot.Gateway.ReceiveChain
import Robot.Gateway.Renegotiation
import Robot.Gateway.NamedLayers
import Robot.Lib.Ledger
import Robot.Case.RunPlan
import Robot.Case.Dispatch
import Robot.Case.Placement
import Robot.Case.SharedIndex
import Robot.Case.DispatchCount
import Robot.Case.DispatchFill
import Robot.Case.DispatchExact
import Robot.Lib.OrderStat
import Robot.Report.Pressure
import Robot.Report.PressureRates
import Robot.Report.PressureBaseline
import Robot.Case.QpsController
import Robot.Case.QpsWaiters
import Robot.Lib.Path
import Robot.Mode.ReportFiles
import Robot.Lib.Glob
import Robot.Report.Isolation
import Robot.Lib.Assign
import Robot.Report.Metrics
import Robot.Report.Traced
import Robot.Report.SoloMetrics
import Robot.Report.Charts
import Robot.Report.ChartFigures
import Robot.Report.ChartsAgree
import Robot.Data.ActionGuard
import Robot.Case.CaseGuard
import Robot.Base.TaskTimeout
import Robot.Case.TaskPool
import Robot.Base.TaskManager
import Robot.Data.OnlineUsers
import Robot.Lib.Headcount
import Robot.Mode.AutoCollect
import Robot.Lib.KeySort
import Robot.Lib.Moments
import Robot.Report.Figures
import Robot.Report.CompactAlgebra
import Robot.Report.Variance
import Robot.Case.RefillArith
import Robot.Report.PressureOutliers
import Robot.Lib.Scanner
import Robot.Case.ParseCase
import Robot.Case.QuotedArgs
import Robot.Report.MetricsWire
import Robot.Case.PoolOwner
import Robot.Report.Totals
import Robot.Case.SharedPrefix
import Robot.Gateway.NoPanic
import Robot.Mode.BalanceExact
import Robot.Gateway.AccessData
import Robot.Mode.AgentReboot
import Robot.Lib.Trie
import Robot.Cmd.UserCommand
