import InferenceCluster.Spec.Pid
import Mathlib.Tactic.Linarith
import Mathlib.Tactic.Positivity

/-! What one update of the controller can do: the sign of its interval, the bounds of its
integral, and its output where the state only asks for more workers. -/

namespace InferenceCluster
namespace PIDController

variable {K : Type} [Field K] [LinearOrder K] [IsStrictOrderedRing K]
variable {c : PIDController K} {now e dt measured : K}

theorem interval_pos (c : PIDController K) (now : K) : 0 < c.interval now := by
  simp only [interval]
  split_ifs with h
  · positivity
  · exact not_le.mp h

/-! ### The integral -/

theorem integrate_nonneg (hmax : 0 ≤ c.integralMax) (h : 0 ≤ c.integral) (he : 0 ≤ e)
    (hdt : 0 ≤ dt) : 0 ≤ c.integrate e dt := by
  have hclamp : 0 ≤ max (-c.integralMax) (min c.integralMax (c.integral + e * dt)) :=
    le_max_of_le_right (le_min hmax (add_nonneg h (mul_nonneg he hdt)))
  simp only [integrate]
  split_ifs
  · positivity
  · exact hclamp

theorem integrate_le (hmax : 0 ≤ c.integralMax) : c.integrate e dt ≤ c.integralMax := by
  have hclamp : max (-c.integralMax) (min c.integralMax (c.integral + e * dt)) ≤ c.integralMax :=
    max_le (neg_le_self hmax) (min_le_left _ _)
  simp only [integrate]
  split_ifs
  · linarith
  · exact hclamp

/-- At the target the integral only leaks. -/
theorem integrate_target (hmax : 0 ≤ c.integralMax) (h : 0 ≤ c.integral) :
    c.integrate 0 dt ≤ c.integral * (95 / 100) := by
  have hclamp : max (-c.integralMax) (min c.integralMax c.integral) ≤ c.integral :=
    max_le ((neg_nonpos.mpr hmax).trans h) (min_le_right _ _)
  have hleak : |(0 : K)| < 1 / 2 := by
    rw [abs_zero]
    positivity
  simp only [integrate, zero_mul, add_zero, if_pos hleak]
  exact mul_le_mul_of_nonneg_right hclamp (by positivity)

/-! ### Settling -/

/-- A clamp around 0 lengthens nothing. -/
theorem abs_clamp_le {lo hi x : K} (hlo : lo ≤ 0)
    (hhi : 0 ≤ hi) : |max lo (min hi x)| ≤ |x| := by
  rw [abs_le]
  constructor
  · rcases le_total 0 x with hx | hx
    · exact (neg_nonpos.mpr (abs_nonneg x)).trans (le_max_of_le_right (le_min hhi hx))
    · rw [abs_of_nonpos hx, neg_neg]
      exact le_max_of_le_right (le_min (hx.trans hhi) le_rfl)
  · exact max_le (hlo.trans (abs_nonneg x)) ((min_le_right _ _).trans (le_abs_self x))

theorem abs_integrate_le (hmax : 0 ≤ c.integralMax) : |c.integrate e dt| ≤ c.integralMax := by
  have hclamp : |max (-c.integralMax) (min c.integralMax (c.integral + e * dt))| ≤
      c.integralMax :=
    abs_le.mpr ⟨le_max_left _ _, max_le (neg_le_self hmax) (min_le_left _ _)⟩
  simp only [integrate]
  split_ifs
  · rw [abs_mul, abs_of_pos (by positivity : (0 : K) < 95 / 100)]
    linarith [abs_nonneg (max (-c.integralMax) (min c.integralMax (c.integral + e * dt)))]
  · exact hclamp

theorem abs_integrate_target (hmax : 0 ≤ c.integralMax) :
    |c.integrate 0 dt| ≤ |c.integral| * (95 / 100) := by
  have hclamp : |max (-c.integralMax) (min c.integralMax c.integral)| ≤ |c.integral| :=
    abs_clamp_le (neg_nonpos.mpr hmax) hmax
  have hleak : |(0 : K)| < 1 / 2 := by
    rw [abs_zero]
    positivity
  simp only [integrate, zero_mul, add_zero, if_pos hleak]
  rw [abs_mul, abs_of_pos (by positivity : (0 : K) < 95 / 100)]
  exact mul_le_mul_of_nonneg_right hclamp (by positivity)

/-- From the second update at the target on, the output is the integral's term. -/
theorem abs_output_target (hmin : c.outputMin ≤ 0) (hmax : 0 ≤ c.outputMax)
    (herror : c.lastError = 0) (now : K) :
    |(c.update now c.target).1| ≤ |c.ki| * |(c.update now c.target).2.integral| := by
  have hzero : c.target - c.target = 0 := sub_self _
  simp only [PIDController.update, hzero, herror, mul_zero, sub_zero, zero_div, zero_add, add_zero]
  rw [← abs_mul]
  exact abs_clamp_le hmin hmax

/-! ### Load that has never been below the target -/

/-- Target 0, no negative parameter, and a state without negative memory. -/
structure Upward (c : PIDController K) : Prop where
  kp : 0 ≤ c.kp
  ki : 0 ≤ c.ki
  kd : 0 ≤ c.kd
  target : c.target = 0
  outputMax : 0 ≤ c.outputMax
  integralMax : 0 ≤ c.integralMax
  integral : 0 ≤ c.integral
  lastError : 0 ≤ c.lastError

theorem Upward.update (h : c.Upward) (hm : 0 ≤ measured) : (c.update now measured).2.Upward := by
  have he : 0 ≤ measured - c.target := by rwa [h.target, sub_zero]
  exact { h with
    integral := integrate_nonneg h.integralMax h.integral he (c.interval_pos now).le
    lastError := he }

omit [IsStrictOrderedRing K] in
theorem Upward.reset (h : c.Upward) : (c.reset now).Upward :=
  { h with integral := le_rfl, lastError := le_rfl }

/-- Where the error does not fall, no term of the output is negative. -/
theorem Upward.output_nonneg (h : c.Upward) (now : K) (hm : c.lastError ≤ measured) :
    0 ≤ (c.update now measured).1 := by
  have hdt := c.interval_pos now
  have he : c.lastError ≤ measured - c.target := by rwa [h.target, sub_zero]
  have he₀ : 0 ≤ measured - c.target := h.lastError.trans he
  have hp : 0 ≤ c.kp * (measured - c.target) := mul_nonneg h.kp he₀
  have hi : 0 ≤ c.ki * c.integrate (measured - c.target) (c.interval now) :=
    mul_nonneg h.ki (integrate_nonneg h.integralMax h.integral he₀ hdt.le)
  have hd : 0 ≤ c.kd * (measured - c.target - c.lastError) / c.interval now :=
    div_nonneg (mul_nonneg h.kd (sub_nonneg.mpr he)) hdt.le
  exact le_max_of_le_right (le_min h.outputMax (add_nonneg (add_nonneg hp hi) hd))

/-- At the target the output is at most the integral's term: the derivative only dampens. -/
theorem Upward.output_target_le (h : c.Upward) (now : K) (hmin : c.outputMin ≤ 0) :
    (c.update now 0).1 ≤ c.ki * (c.update now 0).2.integral := by
  have hdt := c.interval_pos now
  have he : (0 : K) - c.target = 0 := by rw [h.target, sub_zero]
  have hi : 0 ≤ c.ki * c.integrate 0 (c.interval now) :=
    mul_nonneg h.ki (integrate_nonneg h.integralMax h.integral le_rfl hdt.le)
  have hd : c.kd * (0 - c.lastError) / c.interval now ≤ 0 := by
    refine div_nonpos_of_nonpos_of_nonneg ?_ hdt.le
    exact mul_nonpos_of_nonneg_of_nonpos h.kd (sub_nonpos.mpr h.lastError)
  simp only [PIDController.update, he, mul_zero, zero_add]
  exact max_le (hmin.trans hi) ((min_le_right _ _).trans (by linarith))

end PIDController
end InferenceCluster
