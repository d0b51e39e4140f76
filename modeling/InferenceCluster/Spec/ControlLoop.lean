import InferenceCluster.Spec.Autoscaling
import InferenceCluster.Spec.Pid

/-! The control loop: a tick gives the measured queue depth to the controller and decides by
its output. Beside it run the sections of the scale actions and the requests to
`/autoscaler/config`, which sets one attribute after the other and then resets. An update
reads each gain once, so that it sees an assignment beside it or does not. -/

namespace InferenceCluster

structure ControlLoop (K : Type) where
  pid : PIDController K
  system : AutoscalerSystem K

/-- The assignments of `autoscaler_config` to the controller; the one to `cooldown_s` is the
autoscaler's `setCooldown`. -/
inductive Tuning (K : Type) where
  | kp (value : K)
  | ki (value : K)
  | kd (value : K)
  | target (value : K)

/-- A tick reads both clocks, `reading` is the controller's. -/
inductive ControlEvent (K : Type) where
  | tick (reading now queueDepth : K)
  | tune (t : Tuning K)
  | reset (reading : K)
  | scaling (e : AutoscalingEvent K)

def PIDController.tune {K : Type} (c : PIDController K) : Tuning K → PIDController K
  | .kp value => { c with kp := value }
  | .ki value => { c with ki := value }
  | .kd value => { c with kd := value }
  | .target value => { c with target := value }

namespace ControlLoop

variable {K : Type} [Field K] [LinearOrder K] (digest : String → ℕ) (cfg : AutoscalerConfig K)

def step (s : ControlLoop K) : ControlEvent K → Option (ControlLoop K)
  | .tick reading now queueDepth =>
    let r := s.pid.update reading queueDepth
    (s.system.step digest cfg (.tick now r.1)).map fun system => { pid := r.2, system }
  | .tune t => some { s with pid := s.pid.tune t }
  | .reset reading => some { s with pid := s.pid.reset reading }
  | .scaling (.tick ..) => none
  | .scaling e => (s.system.step digest cfg e).map fun system => { s with system }

def machine (pid : PIDController K) (existing : List Node) (cooldown clock : K) :
    Machine (ControlLoop K) (ControlEvent K) :=
  ⟨{ pid, system := .init digest existing cooldown clock }, step digest cfg⟩

/-! ### The router's wiring -/

def routerConfig : AutoscalerConfig K :=
  { minWorkers := 1, maxWorkers := 4, scaleUpThreshold := 3 / 5, scaleDownThreshold := -(3 / 5) }

def routerMachine (reading clock : K) : Machine (ControlLoop K) (ControlEvent K) :=
  machine digest routerConfig (routerPid reading) workerNodes 30 clock

end ControlLoop
end InferenceCluster
