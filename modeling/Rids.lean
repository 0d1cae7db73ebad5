import Rids.Enforcer.Isolation
import Rids.Enforcer.Decision
import Rids.Enforcer.Accumulate
import Rids.Enforcer.Cell
import Rids.Enforcer.Interference
import Rids.Enforcer.CurrentRun
import Rids.Enforcer.Threshold
import Rids.Enforcer.Score
import Rids.Enforcer.Verdict
import Rids.Learner.BinaryGruModel
import Rids.Learner.GruShapes
import Rids.Learner.GruCell
import Rids.Pipeline.DeleteKey
import Rids.Pipeline.IpRule
import Rids.Pipeline.RawRule
import Rids.Pipeline.BranchOfFormat
import Rids.Pipeline.Mirror
import Rids.Pipeline.WhiteList
import Rids.Pipeline.ShowLoad
import Rids.Pipeline.BulkAdd
import Rids.Pipeline.Connection
import Rids.Pipeline.TokenBounds
import Rids.Threads.MirroredTables
import Rids.Generator.CrcRateLimiter
import Rids.Generator.MoonSniff
import Rids.Generator.Histogram
import Rids.Generator.HashMap
import Rids.Cli.CliProcess
import Rids.Cli.CommandBounds
import Rids.Cli.ConfiguredSystem
import Rids.Cli.ProfileArrays
import Rids.Pipeline.DscpTable
