import InferenceCluster.Spec.ControlLoop
import InferenceCluster.Sanity.Autoscaling
import InferenceCluster.Sanity.Pid

/-! What a step of the control loop does to the controller, and what its tick decides on. -/

namespace InferenceCluster

variable {K : Type} [Field K] [LinearOrder K]

/-- The controller after the event. -/
def ControlEvent.onPid (c : PIDController K) : ControlEvent K → PIDController K
  | .tick reading _ queueDepth => (c.update reading queueDepth).2
  | .tune t => c.tune t
  | .reset reading => c.reset reading
  | .scaling _ => c

namespace ControlLoop

variable {digest : String → ℕ} {cfg : AutoscalerConfig K} {s s' : ControlLoop K}
variable {reading now queueDepth : K}

theorem step_pid {e : ControlEvent K} (h : s.step digest cfg e = some s') :
    s'.pid = e.onPid s.pid := by
  cases e with
  | tick reading now queueDepth =>
    obtain ⟨system, -, rfl⟩ := Option.map_eq_some_iff.mp h
    rfl
  | tune t => exact Option.some.inj h ▸ rfl
  | reset reading => exact Option.some.inj h ▸ rfl
  | scaling e =>
    cases e with
    | tick now output => cases h
    | _ =>
      simp only [step, Option.map_eq_some_iff] at h
      obtain ⟨system, -, rfl⟩ := h
      rfl

theorem step_tick (h : s.step digest cfg (.tick reading now queueDepth) = some s') :
    s'.system = s.system.tick cfg now (s.pid.update reading queueDepth).1 := by
  obtain ⟨system, hsys, rfl⟩ := Option.map_eq_some_iff.mp h
  simp only [AutoscalerSystem.step] at hsys
  split at hsys
  · split_ifs at hsys
    exact (Option.some.inj hsys).symm
  · cases hsys

end ControlLoop
end InferenceCluster
