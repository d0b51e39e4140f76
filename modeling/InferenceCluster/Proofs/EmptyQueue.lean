import InferenceCluster.Sanity.ControlLoop
import Mathlib.Algebra.Order.Field.Rat

/-! Scale-ups at an empty queue, with the router's wiring. The integral that a load has wound
up leaks by a twentieth a tick once the queue is empty: it can start workers for nine ticks. -/

namespace InferenceCluster

section Histories

variable {K : Type} [Zero K] [DecidableEq K]

def ControlEvent.countEmpty (n : ℕ) : ControlEvent K → ℕ
  | .tick _ _ queueDepth => if queueDepth = 0 then n + 1 else 0
  | _ => n

/-- How many ticks in a row, up to the last one, have measured 0. -/
def emptyTicks (events : List (ControlEvent K)) : ℕ := events.foldl ControlEvent.countEmpty 0

theorem emptyTicks_concat (events : List (ControlEvent K)) (e : ControlEvent K) :
    emptyTicks (events ++ [e]) = e.countEmpty (emptyTicks events) := by
  rw [emptyTicks, List.foldl_append]
  rfl

/-- The gains stay as they are wired, and no depth is negative. -/
def ControlEvent.Untuned [LE K] : ControlEvent K → Prop
  | .tick _ _ queueDepth => 0 ≤ queueDepth
  | .tune _ => False
  | _ => True

end Histories

variable {K : Type} [Field K] [LinearOrder K] [IsStrictOrderedRing K]

namespace ControlLoop

variable {digest : String → ℕ} {events : List (ControlEvent K)} {s s' : ControlLoop K}
variable {c : PIDController K} {n : ℕ} {reading now : K}

/-- The router's controller, after `n` ticks in a row at an empty queue. -/
structure Leaking (n : ℕ) (c : PIDController K) : Prop extends c.Upward where
  ki_eq : c.ki = 1 / 10
  outputMin_eq : c.outputMin = -2
  integralMax_eq : c.integralMax = 10
  integral_le : c.integral ≤ 10 * (95 / 100) ^ n

theorem Leaking.init (reading : K) : Leaking 0 (routerPid reading) := by
  refine ⟨⟨?_, ?_, ?_, rfl, ?_, ?_, le_rfl, le_rfl⟩, rfl, rfl, rfl, ?_⟩ <;>
    norm_num [routerPid, PIDController.init]

theorem Leaking.empty (h : Leaking n c) : Leaking (n + 1) (c.update reading 0).2 := by
  refine ⟨h.toUpward.update le_rfl, h.ki_eq, h.outputMin_eq, h.integralMax_eq, ?_⟩
  have he : (0 : K) - c.target = 0 := by rw [h.target, sub_zero]
  calc (c.update reading 0).2.integral
      = c.integrate 0 (c.interval reading) := by simp only [PIDController.update, he]
    _ ≤ c.integral * (95 / 100) := PIDController.integrate_target h.integralMax h.integral
    _ ≤ 10 * (95 / 100) ^ n * (95 / 100) := mul_le_mul_of_nonneg_right h.integral_le (by positivity)
    _ = 10 * (95 / 100) ^ (n + 1) := by rw [pow_succ, mul_assoc]

theorem Leaking.busy (h : Leaking n c) {queueDepth : K} (hq : 0 ≤ queueDepth) :
    Leaking 0 (c.update reading queueDepth).2 := by
  refine ⟨h.toUpward.update hq, h.ki_eq, h.outputMin_eq, h.integralMax_eq, ?_⟩
  rw [pow_zero, mul_one, ← h.integralMax_eq]
  exact PIDController.integrate_le h.integralMax

theorem Leaking.reset (h : Leaking n c) : Leaking n (c.reset reading) :=
  ⟨h.toUpward.reset, h.ki_eq, h.outputMin_eq, h.integralMax_eq, by positivity⟩

theorem Leaking.step {e : ControlEvent K} (h : Leaking n s.pid) (hok : e.Untuned)
    (hs : s.step digest routerConfig e = some s') : Leaking (e.countEmpty n) s'.pid := by
  rw [step_pid hs]
  cases e with
  | tick reading now queueDepth =>
    simp only [ControlEvent.countEmpty]
    split_ifs with hq
    · exact hq ▸ h.empty
    · exact h.busy hok
  | tune t => cases hok
  | reset reading => exact h.reset
  | scaling e => exact h

theorem leaking_of_run {clock : K} (h : (routerMachine digest reading clock).Run events s)
    (hok : ∀ e ∈ events, e.Untuned) : Leaking (emptyTicks events) s.pid := by
  induction h with
  | nil => exact Leaking.init reading
  | snoc hr hs ih =>
    obtain ⟨hbefore, hlast⟩ := List.forall_mem_append.mp hok
    rw [emptyTicks_concat]
    exact (ih hbefore).step (hlast _ (List.mem_singleton_self _)) hs

/-- Ten leaks take any integral below what a scale-up needs. -/
theorem leaks_le_nine (h : (6 : K) ≤ 10 * (95 / 100) ^ n) : n ≤ 9 := by
  by_contra hn
  have hpow : (95 / 100 : K) ^ n ≤ (95 / 100) ^ 10 :=
    pow_le_pow_of_le_one (by positivity) (by norm_num) (not_le.mp hn)
  have hten : 10 * (95 / 100 : K) ^ 10 < 6 := by norm_num
  linarith

/-- In every run, a tick at an empty queue scales up on an integral of 6 or more only, and it
is at most the ninth in a row. -/
theorem empty_starts_while_leaking {clock cooldown : K}
    (h : (routerMachine digest reading clock).Run events s) (hok : ∀ e ∈ events, e.Untuned)
    {reading' : K} (hs : s.step digest routerConfig (.tick reading' now 0) = some s')
    (hup : s'.system.point = .scaleUp cooldown) :
    6 ≤ s'.pid.integral ∧ emptyTicks (events ++ [.tick reading' now 0]) ≤ 9 := by
  have hleak := leaking_of_run h hok
  have hout : (3 / 5 : K) ≤ (s.pid.update reading' 0).1 := by
    rw [step_tick hs] at hup
    exact AutoscalerSystem.output_of_scaleUp hup
  have hint : (6 : K) ≤ (s.pid.update reading' 0).2.integral := by
    have hmin : s.pid.outputMin ≤ 0 := by
      rw [hleak.outputMin_eq]
      norm_num
    have hle := hleak.toUpward.output_target_le reading' hmin
    rw [hleak.ki_eq] at hle
    linarith
  refine ⟨(step_pid hs).symm ▸ hint, leaks_le_nine (K := K) ?_⟩
  rw [emptyTicks_concat]
  simp only [ControlEvent.countEmpty, if_pos]
  exact hint.trans hleak.empty.integral_le

/-- A worker is started under load, and the queue is empty from the next tick on. -/
def windDown : List (ControlEvent ℚ) :=
  [.tick 10 1010 1, .scaling (.reserve 1010 1010 1), .scaling (.popen (some 1)),
    .tick 13 1013 0, .tick 16 1016 0, .tick 19 1019 0, .tick 22 1022 0, .tick 25 1025 0,
    .tick 28 1028 0, .tick 31 1031 0, .tick 34 1034 0]

/-- The ninth tick at the empty queue, the first after the cooldown, still starts one. -/
theorem empty_starts_while_leaking_ninth : ∃ s s',
    (routerMachine (fun _ => 0) 0 1000).Run windDown s ∧
    s.step (fun _ => 0) routerConfig (.tick 40 1040 0) = some s' ∧
    6 ≤ s'.pid.integral ∧ emptyTicks (windDown ++ [.tick 40 1040 0]) ≤ 9 := by
  have hexec : ((routerMachine (fun _ => 0) 0 1000).exec (routerMachine (fun _ => 0) 0 1000).init
      windDown).map (fun s => (s.step (fun _ => 0) routerConfig (.tick 40 1040 0)).map
        (·.system.point)) = some (some (.scaleUp 30)) := by
    decide +kernel
  obtain ⟨s, hs, hstep⟩ := Option.map_eq_some_iff.mp hexec
  obtain ⟨s', hs', hup⟩ := Option.map_eq_some_iff.mp hstep
  have hr := (Machine.run_iff_exec _).mpr hs
  exact ⟨s, s', hr, hs', empty_starts_while_leaking hr
    (by simp [windDown, ControlEvent.Untuned]) hs' hup⟩

/-- Six ticks at depth 1, five seconds apart. -/
def steadyLoad : List (ControlEvent ℚ) :=
  [.tick 5 1005 1, .scaling (.reserve 1005 1005 1), .scaling (.popen (some 1)),
    .tick 10 1010 1, .tick 15 1015 1, .tick 20 1020 1, .tick 25 1025 1, .tick 30 1030 1]

/-- The first tick at the empty queue starts a worker. -/
theorem starts_on_empty : ∃ s s', (routerMachine (fun _ => 0) 0 1000).Run steadyLoad s ∧
    s.step (fun _ => 0) routerConfig (.tick 35 1035 0) = some s' ∧
    s'.system.point = .scaleUp 30 := by
  have hexec : ((routerMachine (fun _ => 0) 0 1000).exec (routerMachine (fun _ => 0) 0 1000).init
      steadyLoad).map (fun s => (s.step (fun _ => 0) routerConfig (.tick 35 1035 0)).map
        (·.system.point)) = some (some (.scaleUp 30)) := by
    decide +kernel
  obtain ⟨s, hs, hstep⟩ := Option.map_eq_some_iff.mp hexec
  obtain ⟨s', hs', hup⟩ := Option.map_eq_some_iff.mp hstep
  exact ⟨s, s', (Machine.run_iff_exec _).mpr hs, hs', hup⟩

end ControlLoop
end InferenceCluster
