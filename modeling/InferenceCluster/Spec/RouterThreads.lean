import InferenceCluster.Spec.Autoscaling
import InferenceCluster.Spec.HeartbeatThreads

/-! The router's process with its background threads: the polling thread of the heartbeat, the
autoscaler's tick thread, the threads that register started workers and the threads of the
callbacks. They share the ring and the monitor. A step is one section between two calls that
can take time or that take another lock; a callback is one section. -/

namespace InferenceCluster

/-- `scaling` holds the shared ring and monitor; `running`, `loop` and `pending` are the
heartbeat's. -/
structure RouterThreads (K : Type) where
  scaling : AutoscalerSystem K
  running : Bool := false
  loop : LoopPoint := .notStarted
  pending : List Callback := []

inductive RouterThreadsEvent (K : Type) where
  | scaling (e : AutoscalingEvent K)
  | polling (e : HeartbeatEvent)
  /-- The thread of the pending callback at this index runs. -/
  | callback (i : ℕ)

namespace RouterThreads

variable {K : Type}

/-- What the polling thread sees. -/
def heartbeat (s : RouterThreads K) : HeartbeatThreads :=
  { monitor := s.scaling.monitor, running := s.running, loop := s.loop, pending := s.pending }

def withHeartbeat (s : RouterThreads K) (h : HeartbeatThreads) : RouterThreads K :=
  { scaling := { s.scaling with monitor := h.monitor }
    running := h.running
    loop := h.loop
    pending := h.pending }

variable (digest : String → ℕ)

/-- The module's globals after the startup part of `lifespan`, before the threads start. -/
def init [Zero K] (cooldown clock : K) : RouterThreads K :=
  { scaling := AutoscalerSystem.init digest workerNodes cooldown clock }

variable [AddCommGroup K] [LinearOrder K] (cfg : AutoscalerConfig K)

/-- Nodes are registered by the autoscaler's threads only. -/
def step (s : RouterThreads K) : RouterThreadsEvent K → Option (RouterThreads K)
  | .scaling e => (s.scaling.step digest cfg e).map fun scaling => { s with scaling }
  | .polling (.register _ _) => none
  | .polling e => (s.heartbeat.step e).map s.withHeartbeat
  | .callback i =>
    s.pending[i]?.map fun cb =>
      { s with
        scaling.ring := cb.run digest s.scaling.ring
        pending := s.pending.eraseIdx i }

def machine (cooldown clock : K) : Machine (RouterThreads K) (RouterThreadsEvent K) :=
  ⟨init digest cooldown clock, step digest cfg⟩

end RouterThreads
end InferenceCluster
