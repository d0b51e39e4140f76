import InferenceCluster.Spec.Router

/-! The callbacks of the heartbeat monitor on threads of their own: a check starts the
thread, and the scheduler of the machine decides when it runs. Nothing orders two of them. -/

namespace InferenceCluster

/-- The router's ring and monitor, with the callbacks whose threads have been started and
have not run, oldest first. -/
structure CallbackThreads where
  ring : ConsistentHashRing
  monitor : HeartbeatMonitor
  pending : List Callback

inductive CallbackEvent where
  | check (nodeId : String) (success : Bool)
  /-- The thread of the pending callback at this index runs. -/
  | run (i : ℕ)

namespace CallbackThreads

variable (digest : String → ℕ)

/-- The module's globals after the startup part of `lifespan`. -/
def init : CallbackThreads :=
  ⟨(RouterSystem.init digest ℤ).ring, (RouterSystem.init digest ℤ).monitor, []⟩

def step (s : CallbackThreads) : CallbackEvent → Option CallbackThreads
  | .check nodeId success =>
    let r := s.monitor.check nodeId success
    some { s with monitor := r.1, pending := s.pending ++ r.2.toList }
  | .run i =>
    s.pending[i]?.map fun cb =>
      { s with ring := cb.run digest s.ring, pending := s.pending.eraseIdx i }

def machine : Machine CallbackThreads CallbackEvent :=
  ⟨init digest, step digest⟩

end CallbackThreads
end InferenceCluster
