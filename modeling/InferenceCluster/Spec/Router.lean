import InferenceCluster.Spec.Autoscaler

/-! The router of `router/router.py`: `route`, and the system that the module wires up
from the ring, the heartbeat monitor and the autoscaler. When the autoscaler scales is
left open: any order of the events is a run. -/

namespace InferenceCluster

def workerNodes : List Node :=
  [{ nodeId := "worker-a", host := "127.0.0.1", port := 8001 },
    { nodeId := "worker-b", host := "127.0.0.1", port := 8002 }]

structure HTTPException where
  status : ℕ
  detail : String
  deriving DecidableEq

inductive RouteError where
  | keyError (e : PyDict.KeyError String)
  | http (e : HTTPException)

def noHealthyWorkers : HTTPException := ⟨503, "no healthy workers available"⟩

section Route

variable (digest : String → ℕ)

def route (ring : ConsistentHashRing) (monitor : HeartbeatMonitor) (sessionId : String) :
    Except RouteError Node :=
  match ring.getNodesForKey digest sessionId workerNodes.length with
  | .error e => .error (.keyError e)
  | .ok candidates =>
    match candidates.find? fun node => monitor.isHealthy node.nodeId with
    | some node => .ok node
    | none => .error (.http noHealthyWorkers)

/-! ### The wired system -/

/-- What `next` raises when no worker node has the id. -/
structure StopIteration where

def onNodeDown (ring : ConsistentHashRing) (nodeId : String) : ConsistentHashRing :=
  ring.removeNode digest nodeId

def onNodeUp (ring : ConsistentHashRing) (nodeId : String) :
    Except StopIteration ConsistentHashRing :=
  match workerNodes.find? fun n => n.nodeId = nodeId with
  | some n => .ok (ring.addNode digest n)
  | none => .error ⟨⟩

/-- A callback run to its end or to its exception. -/
def Callback.run (ring : ConsistentHashRing) : Callback → ConsistentHashRing
  | .onNodeDown nodeId => InferenceCluster.onNodeDown digest ring nodeId
  | .onNodeUp nodeId =>
    match InferenceCluster.onNodeUp digest ring nodeId with
    | .ok ring => ring
    | .error _ => ring

end Route

structure RouterSystem (K : Type) where
  ring : ConsistentHashRing
  monitor : HeartbeatMonitor
  autoscaler : Autoscaler K
  pending : List Callback := []
  registering : List Registration := []

inductive RouterEvent (K : Type) where
  | check (nodeId : String) (success : Bool)
  | runCallback
  | scaleUp (now ts queueDepth : K) (proc : Option ℕ)
  | addToRing (reg : Registration)
  | giveUp (reg : Registration)
  | scaleDown (now ts queueDepth : K)

namespace RouterSystem

variable {K : Type} (digest : String → ℕ)

/-- The registration of one node in `lifespan`. -/
def registerWorker (s : RouterSystem K) (node : Node) : RouterSystem K :=
  { s with
    ring := s.ring.addNode digest node
    monitor := s.monitor.register node.nodeId node.address
    autoscaler := s.autoscaler.registerExisting node.nodeId node.port }

/-- The module's globals after the startup part of `lifespan`. -/
def init (K : Type) [Zero K] : RouterSystem K :=
  workerNodes.foldl (registerWorker digest)
    { ring := ConsistentHashRing.init 150, monitor := {}, autoscaler := { lastScale := 0 } }

def step (s : RouterSystem K) : RouterEvent K → Option (RouterSystem K)
  | .check nodeId success =>
    let r := s.monitor.check nodeId success
    some { s with monitor := r.1, pending := s.pending ++ r.2.toList }
  | .runCallback =>
    match s.pending with
    | [] => none
    | cb :: pending => some { s with ring := cb.run digest s.ring, pending }
  | .scaleUp now ts queueDepth proc =>
    let r := s.autoscaler.scaleUp now ts queueDepth proc
    some { s with autoscaler := r.1, registering := s.registering ++ r.2.toList }
  | .addToRing reg =>
    if reg ∈ s.registering then
      let r := Autoscaler.addToRing digest s.ring s.monitor reg
      some { s with ring := r.1, monitor := r.2, registering := s.registering.erase reg }
    else none
  | .giveUp reg =>
    if reg ∈ s.registering then some { s with registering := s.registering.erase reg } else none
  | .scaleDown now ts queueDepth =>
    match s.autoscaler.scaleDown now ts queueDepth with
    | none => some s
    | some (nodeId, a) =>
      some { s with autoscaler := a, ring := s.ring.removeNode digest nodeId }

def machine (K : Type) [Zero K] : Machine (RouterSystem K) (RouterEvent K) :=
  ⟨init digest K, step digest⟩

end RouterSystem
end InferenceCluster
