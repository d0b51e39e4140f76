import InferenceCluster.Lib.Machine
import InferenceCluster.Lib.PyDict
import Mathlib.Algebra.Order.Group.Unbundled.Int

/-! The heartbeat monitor of `router/heartbeat.py`. The answer of `/health` is the
argument `success` of a check; a callback that a check starts a thread for is part of
its result. The time of the last check is not kept. -/

namespace InferenceCluster

inductive NodeStatus where
  | healthy
  | unhealthy
  | unknown
  deriving DecidableEq

/-- An entry of `_nodes`. -/
structure NodeHealth where
  address : String
  status : NodeStatus
  streak : ℤ
  totalChecks : ℕ
  totalFailures : ℕ
  deriving DecidableEq

inductive Callback where
  | onNodeDown (nodeId : String)
  | onNodeUp (nodeId : String)
  deriving DecidableEq

/-- The node a callback is about. -/
def Callback.nodeId : Callback → String
  | .onNodeDown nodeId => nodeId
  | .onNodeUp nodeId => nodeId

structure HeartbeatMonitor where
  failureThreshold : ℤ := 3
  recoveryThreshold : ℤ := 2
  nodes : PyDict String NodeHealth := PyDict.empty

namespace HeartbeatMonitor

def register (m : HeartbeatMonitor) (nodeId address : String) : HeartbeatMonitor :=
  { m with nodes := m.nodes.set nodeId ⟨address, .unknown, 0, 0, 0⟩ }

def isHealthy (m : HeartbeatMonitor) (nodeId : String) : Bool :=
  match m.nodes.get? nodeId with
  | some n => n.status = .healthy
  | none => false

/-- The second locked section of `_check`. -/
def record (m : HeartbeatMonitor) (nodeId : String) (n : NodeHealth) (success : Bool) :
    NodeHealth × Option Callback :=
  let n := { n with
    totalChecks := n.totalChecks + 1
    totalFailures := if success then n.totalFailures else n.totalFailures + 1 }
  if success then
    if n.status = .healthy then ({ n with streak := n.streak + 1 }, none)
    else
      let n := { n with streak := if n.streak ≤ 0 then 1 else n.streak + 1 }
      if m.recoveryThreshold ≤ n.streak then
        ({ n with status := .healthy }, some (.onNodeUp nodeId))
      else (n, none)
  else
    if n.status ≠ .healthy then ({ n with streak := n.streak - 1 }, none)
    else
      let n := { n with streak := if 0 ≤ n.streak then -1 else n.streak - 1 }
      if m.failureThreshold ≤ |n.streak| then
        ({ n with status := .unhealthy }, some (.onNodeDown nodeId))
      else (n, none)

/-- `_check`; a node that is not registered is not polled. -/
def check (m : HeartbeatMonitor) (nodeId : String) (success : Bool) :
    HeartbeatMonitor × Option Callback :=
  match m.nodes.get? nodeId with
  | none => (m, none)
  | some n =>
    let r := m.record nodeId n success
    ({ m with nodes := m.nodes.set nodeId r.1 }, r.2)

end HeartbeatMonitor

/-! ### Runs -/

inductive MonitorEvent where
  | register (nodeId address : String)
  | check (nodeId : String) (success : Bool)

namespace HeartbeatMonitor

def step (m : HeartbeatMonitor) : MonitorEvent → Option HeartbeatMonitor
  | .register nodeId address => some (m.register nodeId address)
  | .check nodeId success => some (m.check nodeId success).1

def machine (failureThreshold recoveryThreshold : ℤ) : Machine HeartbeatMonitor MonitorEvent :=
  ⟨{ failureThreshold, recoveryThreshold }, step⟩

/-- A run from any monitor, with the callbacks that it starts threads for. -/
def run (m : HeartbeatMonitor) (events : List MonitorEvent) : HeartbeatMonitor × List Callback :=
  events.foldl (fun r e =>
    match e with
    | .register nodeId address => (r.1.register nodeId address, r.2)
    | .check nodeId success =>
      ((r.1.check nodeId success).1, r.2 ++ (r.1.check nodeId success).2.toList)) (m, [])

end HeartbeatMonitor

/-- The outcomes of the checks of a node since it was last registered, oldest first. -/
def outcomes (nodeId : String) (events : List MonitorEvent) : List Bool :=
  events.foldl (fun acc e =>
    match e with
    | .register k _ => if k = nodeId then [] else acc
    | .check k success => if k = nodeId then acc ++ [success] else acc) []

end InferenceCluster
