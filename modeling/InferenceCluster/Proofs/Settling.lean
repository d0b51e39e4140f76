import InferenceCluster.Lib.Progress
import InferenceCluster.Sanity.ControlLoop
import Mathlib.Algebra.Order.Field.Rat

/-! The control loop settles. While the depth stays at the target, only the integral moves the
output, and it leaks: after so many ticks no tick decides to scale, whatever came before. -/

namespace InferenceCluster

variable {K : Type} [Field K] [LinearOrder K]

namespace ControlEvent

def isTick : ControlEvent K → Bool
  | .tick _ _ _ => true
  | _ => false

/-- A tick at the target, a reset, or a step of the scale actions. -/
def AtTarget (target : K) : ControlEvent K → Prop
  | .tick _ _ queueDepth => queueDepth = target
  | .tune _ => False
  | _ => True

end ControlEvent

/-- The parameters that no tuning changes, and the integral between its limits. -/
structure PIDController.Limited (start c : PIDController K) : Prop where
  outputMin : c.outputMin = start.outputMin
  outputMax : c.outputMax = start.outputMax
  integralMax : c.integralMax = start.integralMax
  integral : |c.integral| ≤ start.integralMax

/-- What the events since `start` leave of it, `n` of them ticks. -/
structure PIDController.Settled (start : PIDController K) (n : ℕ) (c : PIDController K) : Prop
    where
  outputMin : c.outputMin = start.outputMin
  outputMax : c.outputMax = start.outputMax
  integralMax : c.integralMax = start.integralMax
  ki : c.ki = start.ki
  target : c.target = start.target
  integral : |c.integral| ≤ start.integralMax * (95 / 100) ^ n
  lastError : 0 < n → c.lastError = 0

variable [IsStrictOrderedRing K]

theorem PIDController.Limited.onPid {start c : PIDController K} (h : start.Limited c)
    (hmax : 0 ≤ start.integralMax) (e : ControlEvent K) : start.Limited (e.onPid c) := by
  cases e with
  | tick reading now queueDepth =>
    refine { h with integral := ?_ }
    rw [← h.integralMax]
    exact abs_integrate_le (h.integralMax.ge.trans' hmax)
  | tune t => cases t <;> exact { h with }
  | reset reading => exact { h with integral := abs_zero.trans_le hmax }
  | scaling e => exact h

theorem PIDController.Settled.onPid {start c : PIDController K} {n : ℕ} (h : start.Settled n c)
    (hmax : 0 ≤ start.integralMax) {e : ControlEvent K} (he : e.AtTarget start.target) :
    start.Settled (n + (if e.isTick then 1 else 0)) (e.onPid c) := by
  have hpow : 0 ≤ start.integralMax * (95 / 100) ^ n := mul_nonneg hmax (by positivity)
  cases e with
  | tick reading now queueDepth =>
    have herror : queueDepth - c.target = 0 := by rw [h.target, he, sub_self]
    refine { h with integral := ?_, lastError := fun _ => herror }
    have hleak : |c.integrate 0 (c.interval reading)| ≤ |c.integral| * (95 / 100) :=
      abs_integrate_target (h.integralMax.ge.trans' hmax)
    simp only [ControlEvent.onPid, update, herror, ControlEvent.isTick, if_true, pow_succ]
    rw [← mul_assoc]
    exact hleak.trans (mul_le_mul_of_nonneg_right h.integral (by positivity))
  | tune t => exact absurd he id
  | reset reading => exact { h with integral := abs_zero.trans_le hpow, lastError := fun _ => rfl }
  | scaling e => exact h

namespace ControlLoop

variable {digest : String → ℕ} {cfg : AutoscalerConfig K} {existing : List Node}
variable {pid : PIDController K} {cooldown clock : K} {before after : List (ControlEvent K)}
variable {s t t' : ControlLoop K}

theorem limited_of_run (hmax : 0 ≤ pid.integralMax) (hpid : |pid.integral| ≤ pid.integralMax)
    (h : (machine digest cfg pid existing cooldown clock).Run before s) : pid.Limited s.pid := by
  induction h with
  | nil => exact ⟨rfl, rfl, rfl, hpid⟩
  | snoc _ hs ih => exact step_pid hs ▸ ih.onPid hmax _

/-- From any reachable state: after `n` ticks at the target, one at least, the output of the
next is at most `|ki| * integralMax * 0.95 ^ (n + 1)`, and where this is below the thresholds
the tick does not scale. -/
theorem settles (hmax : 0 ≤ pid.integralMax) (hpid : |pid.integral| ≤ pid.integralMax)
    (houtMin : pid.outputMin ≤ 0) (houtMax : 0 ≤ pid.outputMax)
    (hs : (machine digest cfg pid existing cooldown clock).Run before s)
    (ht : (machine digest cfg pid existing cooldown clock).Run (before ++ after) t)
    (hafter : ∀ e ∈ after, e.AtTarget s.pid.target) (hticks : 0 < after.countP ControlEvent.isTick)
    {reading now : K} (htick : t.step digest cfg (.tick reading now s.pid.target) = some t') :
    let bound := |s.pid.ki| * (pid.integralMax * (95 / 100) ^ (after.countP ControlEvent.isTick + 1))
    |(t.pid.update reading s.pid.target).1| ≤ bound ∧
    (bound < cfg.scaleUpThreshold → cfg.scaleDownThreshold < -bound →
      t'.system.point = .idle) := by
  intro bound
  have hlim := limited_of_run hmax hpid hs
  have hmax' : 0 ≤ s.pid.integralMax := hlim.integralMax.ge.trans' hmax
  have hstart : s.pid.Settled 0 s.pid :=
    ⟨rfl, rfl, rfl, rfl, rfl, by simpa [hlim.integralMax] using hlim.integral, fun h => by cases h⟩
  have hset : s.pid.Settled (after.countP ControlEvent.isTick) t.pid := by
    refine Machine.exec_induction _ (J := fun ks (u : ControlLoop K) =>
      s.pid.Settled (ks.countP ControlEvent.isTick) u.pid) hstart ?_
      (Machine.exec_of_run _ hs ht)
    intro ks u e u' he hJ hu
    rw [step_pid hu, List.countP_append, List.countP_singleton]
    exact hJ.onPid hmax' (hafter e he)
  have hnext := hset.onPid hmax' (e := .tick reading now s.pid.target) rfl
  have hint := hnext.integral
  rw [hlim.integralMax] at hint
  have hout : |(t.pid.update reading s.pid.target).1| ≤ bound := by
    rw [← hset.target]
    refine (PIDController.abs_output_target (hset.outputMin.trans hlim.outputMin ▸ houtMin)
      (hset.outputMax.trans hlim.outputMax ▸ houtMax) (hset.lastError hticks) reading).trans ?_
    rw [hset.target, hset.ki]
    exact mul_le_mul_of_nonneg_left hint (abs_nonneg _)
  refine ⟨hout, fun hup hdown => ?_⟩
  obtain ⟨hlow, hhigh⟩ := abs_le.mp hout
  rw [step_tick htick]
  have hnotUp : ¬cfg.scaleUpThreshold ≤ (t.pid.update reading s.pid.target).1 :=
    not_le.mpr (hhigh.trans_lt hup)
  have hnotDown : ¬(t.pid.update reading s.pid.target).1 ≤ cfg.scaleDownThreshold :=
    not_le.mpr (hdown.trans_le hlow)
  simp only [AutoscalerSystem.tick, hnotUp, hnotDown, false_and, if_false, ite_self]

/-- A burst and its scale-up; ten ticks at the empty queue fall into the cooldown. -/
def burst : List (ControlEvent ℚ) :=
  [.tick 5 1005 9, .scaling (.reserve 1005 1005 9), .scaling (.popen (some 1)), .tick 10 1010 7]

def calm : List (ControlEvent ℚ) :=
  (List.range 10).map fun i => .tick (12 + 2 * i) (1012 + 2 * i) 0

/-- The eleventh tick is past the cooldown and keeps the workers as they are. -/
theorem settles_calm : ∃ s t t', (routerMachine (fun _ => 0) 0 1000).Run burst s ∧
    (routerMachine (fun _ => 0) 0 1000).Run (burst ++ calm) t ∧
    t.step (fun _ => 0) routerConfig (.tick 40 1040 0) = some t' ∧
    t'.system.point = .idle := by
  have hexec : ((routerMachine (fun _ => 0) 0 1000).exec (routerMachine (fun _ => 0) 0 1000).init
      burst).map (fun s => (s.pid.ki, s.pid.target)) = some (1 / 10, 0) := by
    decide +kernel
  have hexec' : ((routerMachine (fun _ => 0) 0 1000).exec (routerMachine (fun _ => 0) 0 1000).init
      (burst ++ calm)).map (fun t => (t.step (fun _ => 0) routerConfig (.tick 40 1040 0)).isSome) =
      some true := by
    decide +kernel
  obtain ⟨s, hs, hgains⟩ := Option.map_eq_some_iff.mp hexec
  obtain ⟨hki, htarget⟩ := Prod.mk.inj hgains
  obtain ⟨t, ht, hstep⟩ := Option.map_eq_some_iff.mp hexec'
  obtain ⟨t', ht'⟩ := Option.isSome_iff_exists.mp hstep
  have hrs := (Machine.run_iff_exec _).mpr hs
  have hrt := (Machine.run_iff_exec _).mpr ht
  have hcalm : ∀ e ∈ calm, e.AtTarget s.pid.target := by
    rw [htarget]
    simp [calm, ControlEvent.AtTarget]
  refine ⟨s, t, t', hrs, hrt, ht', ?_⟩
  have hset := settles (by norm_num [routerPid, PIDController.init])
    (by norm_num [routerPid, PIDController.init]) (by norm_num [routerPid, PIDController.init])
    (by norm_num [routerPid, PIDController.init]) hrs hrt hcalm (by decide) (htarget ▸ ht')
  have hcount : calm.countP ControlEvent.isTick = 10 := by decide
  rw [hki, hcount] at hset
  exact hset.2 (by norm_num [routerPid, PIDController.init, routerConfig])
    (by norm_num [routerPid, PIDController.init, routerConfig])

end ControlLoop
end InferenceCluster
