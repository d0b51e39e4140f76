import InferenceCluster.Sanity.Pid
import Mathlib.Algebra.Order.Field.Rat
import Mathlib.Tactic.Ring

/-! A deeper queue and the signal it gives. Every term of the output grows with the error but
for the leak, which takes its share of the integral near the target only. -/

namespace InferenceCluster
namespace PIDController

variable {K : Type} [Field K] [LinearOrder K]

/-- The integral of an update before it leaks. -/
def windup (c : PIDController K) (e dt : K) : K :=
  max (-c.integralMax) (min c.integralMax (c.integral + e * dt))

/-- The one of two errors that leaks does so against the order of the two. -/
inductive LeakOpposes (c : PIDController K) (dt e₁ e₂ : K) : Prop
  | higher : e₁ ≤ -(1 / 2) → |e₂| < 1 / 2 → 0 < c.windup e₂ dt → LeakOpposes c dt e₁ e₂
  | lower : |e₁| < 1 / 2 → 1 / 2 ≤ e₂ → c.windup e₁ dt < 0 → LeakOpposes c dt e₁ e₂

variable [IsStrictOrderedRing K] {c : PIDController K} {dt e e₁ e₂ : K}

theorem windup_mono (c : PIDController K) (hdt : 0 ≤ dt) (he : e₁ ≤ e₂) :
    c.windup e₁ dt ≤ c.windup e₂ dt := by
  have hadd : c.integral + e₁ * dt ≤ c.integral + e₂ * dt :=
    (add_le_add_iff_left _).mpr (mul_le_mul_of_nonneg_right he hdt)
  exact max_le_max le_rfl (min_le_min le_rfl hadd)

variable (e dt) in
theorem abs_windup_le (hmax : 0 ≤ c.integralMax) : |c.windup e dt| ≤ c.integralMax :=
  abs_le.mpr ⟨le_max_left _ _, max_le (neg_le_self hmax) (min_le_left _ _)⟩

omit [IsStrictOrderedRing K] in
theorem integrate_near (h : |e| < 1 / 2) : c.integrate e dt = c.windup e dt * (95 / 100) := if_pos h

omit [IsStrictOrderedRing K] in
theorem integrate_far (h : 1 / 2 ≤ |e|) : c.integrate e dt = c.windup e dt := if_neg h.not_gt

theorem integrate_mono (hdt : 0 ≤ dt) (he : e₁ ≤ e₂) (hleak : ¬c.LeakOpposes dt e₁ e₂) :
    c.integrate e₁ dt ≤ c.integrate e₂ dt := by
  have hwind := c.windup_mono hdt he
  rcases lt_or_ge |e₁| (1 / 2) with h₁ | h₁ <;> rcases lt_or_ge |e₂| (1 / 2) with h₂ | h₂
  · rw [integrate_near h₁, integrate_near h₂]
    linarith
  · -- only the lower error is near the target
    have hup : 1 / 2 ≤ e₂ := by
      rcases le_abs.mp h₂ with h | h
      · exact h
      · linarith [(abs_lt.mp h₁).1]
    have hsign : 0 ≤ c.windup e₁ dt := not_lt.mp fun hneg => hleak (.lower h₁ hup hneg)
    rw [integrate_near h₁, integrate_far h₂]
    linarith
  · -- only the higher one is
    have hdown : e₁ ≤ -(1 / 2) := by
      rcases le_abs.mp h₁ with h | h
      · linarith [(abs_lt.mp h₂).2]
      · linarith
    have hsign : c.windup e₂ dt ≤ 0 := not_lt.mp fun hpos => hleak (.higher hdown h₂ hpos)
    rw [integrate_far h₁, integrate_near h₂]
    linarith
  · rw [integrate_far h₁, integrate_far h₂]
    exact hwind

/-- What the leak can take is five percent of the integral. -/
theorem integrate_le_add (hmax : 0 ≤ c.integralMax) (hdt : 0 ≤ dt) (he : e₁ ≤ e₂) :
    c.integrate e₁ dt ≤ c.integrate e₂ dt + c.integralMax * (5 / 100) := by
  have hwind := c.windup_mono hdt he
  obtain ⟨hlo₁, hhi₁⟩ := abs_le.mp (abs_windup_le dt e₁ hmax)
  obtain ⟨hlo₂, hhi₂⟩ := abs_le.mp (abs_windup_le dt e₂ hmax)
  rcases lt_or_ge |e₁| (1 / 2) with h₁ | h₁ <;> rcases lt_or_ge |e₂| (1 / 2) with h₂ | h₂
  · rw [integrate_near h₁, integrate_near h₂]
    linarith
  · rw [integrate_near h₁, integrate_far h₂]
    linarith
  · rw [integrate_far h₁, integrate_near h₂]
    linarith
  · rw [integrate_far h₁, integrate_far h₂]
    linarith

/-! ### The output -/

/-- The output before it is clamped. -/
def signal (c : PIDController K) (e dt : K) : K :=
  c.kp * e + c.ki * c.integrate e dt + c.kd * (e - c.lastError) / dt

omit [IsStrictOrderedRing K] in
theorem update_fst (c : PIDController K) (now measured : K) : (c.update now measured).1 =
    max c.outputMin (min c.outputMax (c.signal (measured - c.target) (c.interval now))) := rfl

/-- The other two terms gain in proportion. -/
theorem signal_sub (c : PIDController K) (e₁ e₂ dt : K) : c.signal e₁ dt - c.signal e₂ dt =
    c.ki * (c.integrate e₁ dt - c.integrate e₂ dt) - (c.kp + c.kd / dt) * (e₂ - e₁) := by
  simp only [signal]
  ring

theorem clamp_le_add (lo hi x y : K) :
    max lo (min hi x) ≤ max lo (min hi y) + max 0 (x - y) := by
  have hx : x ≤ y + max 0 (x - y) := by linarith [le_max_right 0 (x - y)]
  have hpos : 0 ≤ max 0 (x - y) := le_max_left _ _
  apply max_le
  · linarith [le_max_left lo (min hi y)]
  · rcases le_total hi y with hy | hy
    · have hmin : min hi y ≤ max lo (min hi y) := le_max_right _ _
      rw [min_eq_left hy] at hmin ⊢
      linarith [min_le_left hi x]
    · have hmin : min hi y ≤ max lo (min hi y) := le_max_right _ _
      rw [min_eq_right hy] at hmin ⊢
      linarith [min_le_right hi x]

/-- A deeper queue never gives a weaker signal but where the leak opposes it, and there by no
more than five percent of the integral's term. -/
theorem monotone_in_load (hkp : 0 ≤ c.kp) (hki : 0 ≤ c.ki) (hkd : 0 ≤ c.kd)
    (hmax : 0 ≤ c.integralMax) {m₁ m₂ : K} (hm : m₁ ≤ m₂) (now : K) :
    (¬c.LeakOpposes (c.interval now) (m₁ - c.target) (m₂ - c.target) →
      (c.update now m₁).1 ≤ (c.update now m₂).1) ∧
    (c.update now m₁).1 ≤ (c.update now m₂).1 +
      max 0 (c.ki * c.integralMax * (5 / 100) - (c.kp + c.kd / c.interval now) * (m₂ - m₁)) := by
  have hdt := c.interval_pos now
  have he : m₁ - c.target ≤ m₂ - c.target := sub_le_sub_right hm _
  have hgain : 0 ≤ (c.kp + c.kd / c.interval now) * (m₂ - m₁) :=
    mul_nonneg (add_nonneg hkp (div_nonneg hkd hdt.le)) (sub_nonneg.mpr hm)
  have hsub := c.signal_sub (m₁ - c.target) (m₂ - c.target) (c.interval now)
  rw [sub_sub_sub_cancel_right] at hsub
  simp only [update_fst]
  constructor
  · intro hleak
    have hint := mul_le_mul_of_nonneg_left (integrate_mono hdt.le he hleak) hki
    exact max_le_max le_rfl (min_le_min le_rfl (by linarith))
  · have hint := mul_le_mul_of_nonneg_left (integrate_le_add hmax hdt.le he) hki
    refine (clamp_le_add _ _ _ (c.signal (m₂ - c.target) (c.interval now))).trans ?_
    rw [add_le_add_iff_left]
    exact max_le_max le_rfl (by linarith)

/-- After a load of 11, with a target of 1. -/
def wound : PIDController ℚ :=
  ((PIDController.init 0 (1 / 2) (1 / 10) (1 / 20) 1 (-2) 2 10).update 1 11).2

/-- Two depths above the band. -/
theorem monotone_in_load_above : (wound.update 2 2).1 ≤ (wound.update 2 3).1 := by
  refine (monotone_in_load ?_ ?_ ?_ ?_ (show (2 : ℚ) ≤ 3 by norm_num) 2).1 ?_
  any_goals decide +kernel
  rintro (⟨h, -, -⟩ | ⟨h, -, -⟩)
  · exact absurd h (by decide +kernel)
  · exact absurd h (by decide +kernel)

/-- The leak of the second outweighs a hundredth more of the queue. -/
theorem deeper_queue_weaker_signal : (wound.update 2 (51 / 100)).1 < (wound.update 2 (1 / 2)).1 := by
  decide +kernel

end PIDController
end InferenceCluster
