import InferenceCluster.Spec.HashRing
import InferenceCluster.Spec.Heartbeat

/-! The state of `metrics/autoscaler.py` and what starting, registering and stopping a
worker does to it. Times and queue depths are in `K`; a `Popen` handle is a number. -/

namespace InferenceCluster

inductive ScaleAction where
  | scaleUp
  | scaleDown
  deriving DecidableEq

structure ScaleEvent (K : Type) where
  ts : K
  action : ScaleAction
  nodeId : String
  port : Option ℕ := none
  queueDepth : K

structure Autoscaler (K : Type) where
  workers : PyDict String (Option ℕ) := PyDict.empty
  nextPort : ℕ := 8003
  lastScale : K
  scaleEvents : List (ScaleEvent K) := []

/-- The arguments of a `_register_when_ready` thread. -/
structure Registration where
  nodeId : String
  address : String
  port : ℕ
  deriving DecidableEq

namespace Autoscaler

variable {K : Type}

def autoId (port : ℕ) : String := "worker-auto-" ++ toString port

def registerExisting (a : Autoscaler K) (nodeId : String) (port : ℕ) : Autoscaler K :=
  { a with workers := a.workers.set nodeId none, nextPort := max a.nextPort (port + 1) }

/-- The first locked section of `_scale_up`, with its two readings of the clock. -/
def reserve (a : Autoscaler K) (now ts queueDepth : K) : Autoscaler K :=
  { a with
    nextPort := a.nextPort + 1
    lastScale := now
    scaleEvents := a.scaleEvents ++ [⟨ts, .scaleUp, autoId a.nextPort, a.nextPort, queueDepth⟩] }

/-- `_scale_up`: `proc` is the handle that `Popen` returns, `none` if it raises. A started
worker gets a thread that waits for it. -/
def scaleUp (a : Autoscaler K) (now ts queueDepth : K) (proc : Option ℕ) :
    Autoscaler K × Option Registration :=
  let port := a.nextPort
  let nodeId := autoId port
  let a := a.reserve now ts queueDepth
  match proc with
  | none => (a, none)
  | some p =>
    ({ a with workers := a.workers.set nodeId (some p) },
      some ⟨nodeId, "http://127.0.0.1:" ++ toString port, port⟩)

/-- The locked section of `_scale_down`: the first worker with a handle is forgotten. -/
def scaleDown (a : Autoscaler K) (now ts queueDepth : K) : Option (String × Autoscaler K) :=
  (a.workers.items.find? fun w => w.2.isSome).map fun w =>
    (w.1, { a with
      workers := a.workers.pop w.1
      lastScale := now
      scaleEvents := a.scaleEvents ++ [{ ts, action := .scaleDown, nodeId := w.1, queueDepth }] })

/-- `_add_to_ring`, with ring and monitor set and its two sections as one. -/
def addToRing (digest : String → ℕ) (ring : ConsistentHashRing) (monitor : HeartbeatMonitor)
    (reg : Registration) : ConsistentHashRing × HeartbeatMonitor :=
  (ring.addNode digest { nodeId := reg.nodeId, host := "127.0.0.1", port := reg.port },
    monitor.register reg.nodeId reg.address)

end Autoscaler
end InferenceCluster
