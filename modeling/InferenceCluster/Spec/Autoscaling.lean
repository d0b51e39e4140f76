import InferenceCluster.Spec.Router

/-! The autoscaler's tick thread beside the threads that register started workers. A step is
one section between two calls that can take time or that take another lock; clock readings, the
controller's output and what `Popen` does are part of the label. -/

namespace InferenceCluster

structure AutoscalerConfig (K : Type) where
  minWorkers : ℤ := 1
  maxWorkers : ℤ := 4
  scaleUpThreshold : K
  scaleDownThreshold : K

/-- Where the tick thread stands: between two ticks, or before a section of `_scale_up` or
`_scale_down`. `cooldown` is the value that this tick has tested. -/
inductive TickPoint (K : Type) where
  | idle
  | scaleUp (cooldown : K)
  | popen (port : ℕ)
  | scaleDown (cooldown : K)
  | removeNode (nodeId : String) (proc : Option ℕ)
  | terminate (nodeId : String) (proc : Option ℕ)
  deriving DecidableEq

/-- A value stored in `_last_scale`, and the cooldown that its tick has tested. -/
structure Stamp (K : Type) where
  stored : K
  cooldown : K

/-- `polling`, `adding` and `registering` are the registration threads that ask for `/health`,
that have an answer, and whose node is in the ring and not yet in the monitor. `terminated` and
`stamps` record what has happened; the code keeps neither. -/
structure AutoscalerSystem (K : Type) where
  autoscaler : Autoscaler K
  ring : ConsistentHashRing
  monitor : HeartbeatMonitor
  cooldown : K
  clock : K
  point : TickPoint K := .idle
  polling : List Registration := []
  adding : List Registration := []
  registering : List Registration := []
  terminated : List (String × Option ℕ) := []
  stamps : List (Stamp K) := []

inductive AutoscalingEvent (K : Type) where
  | tick (now output : K)
  | reserve (now ts queueDepth : K)
  | popen (proc : Option ℕ)
  | scaleDown (now ts queueDepth : K)
  | removeNode
  | terminate
  | setCooldown (cooldown : K)
  /-- A poll of a registration thread answers; one that fails changes nothing. -/
  | answer (reg : Registration)
  | giveUp (reg : Registration)
  /-- `_add_to_ring` takes the ring's lock and then, in a section of its own, the monitor's. -/
  | addToRing (reg : Registration)
  | register (reg : Registration)

namespace Autoscaler

variable {K : Type}

/-- The second locked section of `_scale_up`. -/
def started (a : Autoscaler K) (port proc : ℕ) : Autoscaler K :=
  { a with workers := a.workers.set (autoId port) (some proc) }

/-- The thread that `_scale_up` starts. -/
def registration (port : ℕ) : Registration :=
  ⟨autoId port, "http://127.0.0.1:" ++ toString port, port⟩

end Autoscaler

namespace AutoscalerSystem

variable {K : Type} (digest : String → ℕ)

/-- The registration of one external node in `lifespan`. -/
def registerWorker (s : AutoscalerSystem K) (node : Node) : AutoscalerSystem K :=
  { s with
    ring := s.ring.addNode digest node
    monitor := s.monitor.register node.nodeId node.address
    autoscaler := s.autoscaler.registerExisting node.nodeId node.port }

def init [Zero K] (existing : List Node) (cooldown clock : K) : AutoscalerSystem K :=
  existing.foldl (registerWorker digest)
    { autoscaler := { lastScale := 0 }, ring := .init 150, monitor := {}, cooldown, clock }

variable [AddCommGroup K] [LinearOrder K] (cfg : AutoscalerConfig K)

/-- `_tick`, up to the call of `_scale_up` or `_scale_down`. -/
def tick (s : AutoscalerSystem K) (now output : K) : AutoscalerSystem K :=
  let nWorkers : ℤ := s.autoscaler.workers.size
  let inCooldown : Bool := now - s.autoscaler.lastScale < s.cooldown
  { s with
    clock := now
    point :=
      if inCooldown then .idle
      else if cfg.scaleUpThreshold ≤ output ∧ nWorkers < cfg.maxWorkers then .scaleUp s.cooldown
      else if output ≤ cfg.scaleDownThreshold ∧ cfg.minWorkers < nWorkers then
        .scaleDown s.cooldown
      else .idle }

/-- The clock does not go backwards. -/
def step (s : AutoscalerSystem K) : AutoscalingEvent K → Option (AutoscalerSystem K)
  | .tick now output =>
    match s.point with
    | .idle => if s.clock ≤ now then some (s.tick cfg now output) else none
    | _ => none
  | .reserve now ts queueDepth =>
    match s.point with
    | .scaleUp cooldown =>
      if s.clock ≤ now ∧ now ≤ ts then
        some { s with
          autoscaler := s.autoscaler.reserve now ts queueDepth
          clock := ts
          point := .popen s.autoscaler.nextPort
          stamps := s.stamps ++ [⟨now, cooldown⟩] }
      else none
    | _ => none
  | .popen proc =>
    match s.point, proc with
    | .popen port, some proc =>
      some { s with
        autoscaler := s.autoscaler.started port proc
        point := .idle
        polling := s.polling ++ [Autoscaler.registration port] }
    | .popen _, none => some { s with point := .idle }
    | _, _ => none
  | .scaleDown now ts queueDepth =>
    match s.point with
    | .scaleDown cooldown =>
      if s.clock ≤ now ∧ now ≤ ts then
        match s.autoscaler.scaleDown now ts queueDepth with
        | none => some { s with point := .idle }
        | some (nodeId, a) =>
          some { s with
            autoscaler := a
            clock := ts
            point := .removeNode nodeId ((s.autoscaler.workers.get? nodeId).getD none)
            stamps := s.stamps ++ [⟨now, cooldown⟩] }
      else none
    | _ => none
  | .removeNode =>
    match s.point with
    | .removeNode nodeId proc =>
      some { s with ring := s.ring.removeNode digest nodeId, point := .terminate nodeId proc }
    | _ => none
  | .terminate =>
    match s.point with
    | .terminate nodeId proc =>
      some { s with terminated := s.terminated ++ [(nodeId, proc)], point := .idle }
    | _ => none
  | .setCooldown cooldown => some { s with cooldown }
  | .answer reg =>
    if reg ∈ s.polling then
      some { s with polling := s.polling.erase reg, adding := s.adding ++ [reg] }
    else none
  | .giveUp reg =>
    if reg ∈ s.polling then some { s with polling := s.polling.erase reg } else none
  | .addToRing reg =>
    if reg ∈ s.adding then
      some { s with
        ring := s.ring.addNode digest
          { nodeId := reg.nodeId, host := "127.0.0.1", port := reg.port }
        adding := s.adding.erase reg
        registering := s.registering ++ [reg] }
    else none
  | .register reg =>
    if reg ∈ s.registering then
      some { s with
        monitor := s.monitor.register reg.nodeId reg.address
        registering := s.registering.erase reg }
    else none

def machine (existing : List Node) (cooldown clock : K) :
    Machine (AutoscalerSystem K) (AutoscalingEvent K) :=
  ⟨init digest existing cooldown clock, step digest cfg⟩

end AutoscalerSystem
end InferenceCluster
