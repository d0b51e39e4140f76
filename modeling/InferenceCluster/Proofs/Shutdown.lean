import InferenceCluster.Proofs.ExactlyOnce

/-! Shutdown. `stop` makes the worker leave its loop and nothing else: what is in the heap
at that moment, and what is pushed after it, is never served. -/

namespace InferenceCluster

variable {K : Type}

/-- The worker thread is over. -/
def WorkerPoint.ended : WorkerPoint K → Bool
  | .exited | .crashed _ => true
  | .notStarted | .loopTop | .waitFirst | .collecting _ | .waitMore _ | .runBatch _
  | .delivering _ _ | .failing _ _ _ | .accounting _ => false

namespace SchedulerSystem

variable [LinearOrder K]

variable [Field K]

end SchedulerSystem
end InferenceCluster
