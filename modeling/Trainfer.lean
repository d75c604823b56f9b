import Trainfer.Lib.Runs
import Trainfer.ComputeQueue
import Trainfer.CommitCursor
import Trainfer.Lib.Slices
import Trainfer.SubmitTrain
import Trainfer.TrainBatch
import Trainfer.BatchCommit
import Trainfer.Generate
import Trainfer.ModelState
import Trainfer.Snapshot
import Trainfer.Residual
import Trainfer.ResidualBinding
import Trainfer.SnapshotHistory
import Trainfer.SnapshotRoundTrip
import Trainfer.Lib.LowRank
import Trainfer.LoraGradient
import Trainfer.AdapterMode
import Trainfer.Lib.Effect
import Trainfer.Objective
import Trainfer.UnlikeGate
import Trainfer.TrainEngine
import Trainfer.TrainTrace
import Trainfer.LearningRate
import Trainfer.UnlikeAnchor
import Trainfer.Lib.Lines
import Trainfer.Lib.Utf8
import Trainfer.TrajectoryLog
import Trainfer.LogRoundTrip
import Trainfer.TornWrite
import Trainfer.Schedulers
import Trainfer.LogReaders
import Trainfer.Follower
import Trainfer.TTRL
import Trainfer.TTRLBound
import Trainfer.Feedback
import Trainfer.FeedbackReplay
import Trainfer.GracefulDrain
import Trainfer.DrainResolves
import Trainfer.LoadAtomic
import Trainfer.CrashSave
import Trainfer.WeightWrites
import Trainfer.WeightVersions
import Trainfer.Lib.Find
import Trainfer.Reasoning
import Trainfer.CommitStream
import Trainfer.DaemonStream
import Trainfer.AdmissionCount
import Trainfer.FeedbackEnvelope
import Trainfer.IdleReplayRun
import Trainfer.Lib.DirTree
import Trainfer.SnapshotNames
import Trainfer.DrainTrace
import Trainfer.WaitOutcome
import Trainfer.ControlPlane
import Trainfer.Lifespan
import Trainfer.ReasoningFinal
import Trainfer.StepCases
import Trainfer.OptimizerLife
import Trainfer.Lib.FloatFormat
import Trainfer.AdapterBits
import Trainfer.MergeFunction
import Trainfer.CombinedLoss
import Trainfer.Kto
import Trainfer.FailedStep
import Trainfer.WeightedSft
import Trainfer.Lib.Ranks
import Trainfer.Ccpd
import Trainfer.PinnedEnds
import Trainfer.Lib.Gibbs
import Trainfer.KlAnchor
import Trainfer.TargetAnchor
import Trainfer.Safety
import Trainfer.GrowerSet
import Trainfer.Lib.Regex
import Trainfer.MathVerifier
import Trainfer.Lib.Counter
import Trainfer.MajorityVote
import Trainfer.VerifierVote
import Trainfer.Lib.Positional
import Trainfer.DecimalKeys
import Trainfer.Lib.Strata
import Trainfer.TaskSplit
import Trainfer.LogicalVerifier
import Trainfer.ChatInputs
import Trainfer.SequenceLogprob
import Trainfer.SupervisionGeometry
import Trainfer.SpanPrefix
import Trainfer.FactVerifier
import Trainfer.Ccd
import Trainfer.ProbeSpan
import Trainfer.PrefixGeometry
import Trainfer.Lib.Keyed
import Trainfer.RateLimit
import Trainfer.Lib.PartialWord
import Trainfer.Fingerprint
import Trainfer.Lib.Buffer
import Trainfer.ChunkedKl
import Trainfer.ReasoningBuffer
import Trainfer.Lib.OrderedDict
import Trainfer.ResponseIndex
import Trainfer.ErrorEnvelope
import Trainfer.ChatStream
import Trainfer.ChatStreamRun
import Trainfer.Lib.Delimited
import Trainfer.ChatClient
import Trainfer.GreedyRank
import Trainfer.Lib.Patience
import Trainfer.Memorize
import Trainfer.MetricFanout
import Trainfer.TaskHandler
import Trainfer.GenerateStream
import Trainfer.Lib.SoftmaxGradient
import Trainfer.UnlikeLoss
import Trainfer.UnlikeDescent
import Trainfer.UnlikeMonitor
import Trainfer.BatchScore
import Trainfer.BatchLoss
import Trainfer.NllGradient
import Trainfer.KlScopes
import Trainfer.Lib.TopRanks
import Trainfer.CcpdSteps
import Trainfer.KtoDrift
