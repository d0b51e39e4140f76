import InferenceCluster.Spec.Heartbeat

/-! The polling thread of `router/heartbeat.py` beside the threads that register nodes. The
thread asks one node at a time and without the lock; what it records is the answer of the
address that it has read before. -/

namespace InferenceCluster

/-- Where `_loop` stands; `probing` is the request between the two sections of `_check`. -/
inductive LoopPoint where
  | notStarted
  | loopTop
  | snapshot
  | checking (todo : List String)
  | probing (nodeId address : String) (todo : List String)
  | exited
  | crashed (e : PyDict.KeyError String)

/-- The nodes that the round still has to record. -/
def LoopPoint.todo : LoopPoint → List String
  | .checking todo => todo
  | .probing nodeId _ todo => nodeId :: todo
  | .notStarted | .loopTop | .snapshot | .exited | .crashed _ => []

/-- `pending` are the callbacks whose threads have been started. What the monitor has recorded
and the number of rounds begun are kept for the statements only. -/
structure HeartbeatThreads where
  monitor : HeartbeatMonitor
  running : Bool := false
  loop : LoopPoint := .notStarted
  pending : List Callback := []
  log : List MonitorEvent := []
  rounds : ℕ := 0

inductive HeartbeatEvent where
  | start
  | stop
  | register (nodeId address : String)
  | advance
  | answer (success : Bool)

namespace HeartbeatThreads

/-- The next section of `_loop`, but for the end of a request. -/
def advance (s : HeartbeatThreads) : Option HeartbeatThreads :=
  match s.loop with
  | .loopTop => some { s with loop := if s.running then .snapshot else .exited }
  | .snapshot => some { s with loop := .checking s.monitor.nodes.keys, rounds := s.rounds + 1 }
  | .checking [] => some { s with loop := .loopTop }
  | .checking (nodeId :: todo) =>
    some { s with
      loop := match s.monitor.nodes.get? nodeId with
        | none => .checking todo
        | some n => .probing nodeId n.address todo }
  | _ => none

/-- The second locked section of `_check`. -/
def answer (s : HeartbeatThreads) (success : Bool) : Option HeartbeatThreads :=
  match s.loop with
  | .probing nodeId _ todo =>
    match s.monitor.nodes.getItem nodeId with
    | .error e => some { s with loop := .crashed e }
    | .ok n =>
      let r := s.monitor.record nodeId n success
      some { s with
        monitor.nodes := s.monitor.nodes.set nodeId r.1
        loop := .checking todo
        pending := s.pending ++ r.2.toList
        log := s.log ++ [.check nodeId success] }
  | _ => none

def step (s : HeartbeatThreads) : HeartbeatEvent → Option HeartbeatThreads
  | .start =>
    match s.loop with
    | .notStarted => some { s with running := true, loop := .loopTop }
    | _ => none
  | .stop => some { s with running := false }
  | .register nodeId address =>
    some { s with
      monitor := s.monitor.register nodeId address
      log := s.log ++ [.register nodeId address] }
  | .advance => s.advance
  | .answer success => s.answer success

def machine (failureThreshold recoveryThreshold : ℤ) : Machine HeartbeatThreads HeartbeatEvent :=
  ⟨{ monitor := { failureThreshold, recoveryThreshold } }, step⟩

end HeartbeatThreads
end InferenceCluster
