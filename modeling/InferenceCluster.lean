import InferenceCluster.Proofs.AllocatorThreads
import InferenceCluster.Proofs.PrivateCopies
import InferenceCluster.Proofs.RoundTrip
import InferenceCluster.Proofs.AdmissionEnvelope
import InferenceCluster.Proofs.ConsecutiveFailures
import InferenceCluster.Proofs.RingFollowsHealth
import InferenceCluster.Proofs.FailoverRouting
import InferenceCluster.Proofs.MinimalDisruption
import InferenceCluster.Proofs.RingHistory
import InferenceCluster.Proofs.ExactlyOnce
import InferenceCluster.Proofs.NeverDetected
import InferenceCluster.Proofs.CallbackOrder
import InferenceCluster.Proofs.Shutdown
import InferenceCluster.Proofs.BlockOwnership
import InferenceCluster.Proofs.SequenceIsolation
import InferenceCluster.Proofs.NoStaleDisclosure
import InferenceCluster.Proofs.PrefixStability
import InferenceCluster.Proofs.AutoscalerSafety
import InferenceCluster.Proofs.GhostWorkers
import InferenceCluster.Proofs.Batching
import InferenceCluster.Proofs.PrematureRecovery
import InferenceCluster.Proofs.CallbacksMirror
import InferenceCluster.Proofs.ClockwiseLookup
import InferenceCluster.Proofs.PriorityOrder
import InferenceCluster.Proofs.OnlyRateLimiting
import InferenceCluster.Proofs.DrainFlushes
import InferenceCluster.Proofs.NeverShrinks
import InferenceCluster.Proofs.EmptyQueue
import InferenceCluster.Proofs.PolledWorkers
import InferenceCluster.Proofs.FailedStarts
import InferenceCluster.Proofs.OutOfMemory
import InferenceCluster.Proofs.MonotoneInLoad
import InferenceCluster.Proofs.FailedTuning
import InferenceCluster.Proofs.TokenAccounting
import InferenceCluster.Proofs.ControlLimits
import InferenceCluster.Proofs.Percentiles
import InferenceCluster.Proofs.CancelledFutures
import InferenceCluster.Proofs.CausalLeak
import InferenceCluster.Proofs.BoundedService
import InferenceCluster.Proofs.NoLostWakeup
import InferenceCluster.Proofs.Reconfiguration
import InferenceCluster.Proofs.StatsFigures
import InferenceCluster.Proofs.ResponseIntegrity
import InferenceCluster.Proofs.CollectorRounds
import InferenceCluster.Proofs.Settling
import InferenceCluster.Proofs.SessionAffinity
import InferenceCluster.Proofs.TransparentStats
import InferenceCluster.Proofs.EndToEnd
import InferenceCluster.Proofs.Detection
import InferenceCluster.Proofs.CallProgress
import InferenceCluster.Proofs.LoadShedding
import InferenceCluster.Proofs.NoOvertaking
import InferenceCluster.Proofs.AtMostOnce
import InferenceCluster.Proofs.RouterRefinement
import InferenceCluster.Proofs.RouterParts
import InferenceCluster.Proofs.PrefixAttention
import InferenceCluster.Proofs.DeploymentThreads
