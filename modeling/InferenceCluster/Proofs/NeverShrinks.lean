import InferenceCluster.Sanity.ControlLoop
import Mathlib.Algebra.Order.Field.Rat

/-! When the cluster can shrink. With target 0 the controller has no negative memory: only a
depth below that of the tick before can pull its output under zero, through the derivative. -/

namespace InferenceCluster

section Histories

variable {K : Type}

/-- The last measured depth since the last reset. -/
def ControlEvent.remember (last : Option K) : ControlEvent K → Option K
  | .tick _ _ queueDepth => some queueDepth
  | .reset _ => none
  | _ => last

def depthBefore (events : List (ControlEvent K)) : Option K :=
  events.foldl ControlEvent.remember none

theorem depthBefore_concat (events : List (ControlEvent K)) (e : ControlEvent K) :
    depthBefore (events ++ [e]) = e.remember (depthBefore events) := by
  rw [depthBefore, List.foldl_append]
  rfl

variable [Zero K] [LE K]

/-- The depth is at least that of the tick before since the last reset, if there is one. -/
def NotFalling (events : List (ControlEvent K)) (queueDepth : K) : Prop :=
  ∀ last ∈ depthBefore events, last ≤ queueDepth

/-- The controller keeps its target 0 and has no negative gain, and no depth is negative. -/
def ControlEvent.Lawful : ControlEvent K → Prop
  | .tick _ _ queueDepth => 0 ≤ queueDepth
  | .tune (.kp value) => 0 ≤ value
  | .tune (.ki value) => 0 ≤ value
  | .tune (.kd value) => 0 ≤ value
  | .tune (.target value) => value = 0
  | _ => True

end Histories

variable {K : Type} [Field K] [LinearOrder K]

namespace ControlLoop

variable {digest : String → ℕ} {cfg : AutoscalerConfig K} {existing : List Node}
variable {events : List (ControlEvent K)} {s s' : ControlLoop K}

omit [Field K] in
/-- A queue that stays empty does not fall. -/
theorem notFalling_of_empty [Zero K] {idle : List (ControlEvent K)} (h : NotFalling events 0)
    (hidle : ∀ reading now queueDepth, .tick reading now queueDepth ∈ idle → queueDepth = 0) :
    NotFalling (events ++ idle) 0 := by
  induction idle using List.reverseRecOn with
  | nil => rwa [List.append_nil]
  | append_singleton idle e ih =>
    have hlast := ih fun reading now queueDepth he =>
      hidle reading now queueDepth (List.mem_append_left _ he)
    rw [← List.append_assoc]
    intro last hl
    rw [depthBefore_concat] at hl
    cases e with
    | tick reading now queueDepth =>
      have hzero := hidle reading now queueDepth (List.mem_append_right _ (List.mem_singleton_self _))
      exact (Option.some.inj hl).symm.le.trans hzero.le
    | reset reading => cases hl
    | tune t => exact hlast last hl
    | scaling e => exact hlast last hl

variable [IsStrictOrderedRing K]

/-- What a run knows of its controller. -/
structure Remembers (events : List (ControlEvent K)) (c : PIDController K) : Prop
    extends c.Upward where
  lastDepth : c.lastError = (depthBefore events).getD 0

theorem Remembers.step {e : ControlEvent K} (h : Remembers events s.pid) (hok : e.Lawful)
    (hs : s.step digest cfg e = some s') : Remembers (events ++ [e]) s'.pid := by
  rw [step_pid hs]
  cases e with
  | tick reading now queueDepth =>
    refine ⟨h.toUpward.update hok, ?_⟩
    rw [depthBefore_concat]
    exact (congrArg _ h.target).trans (sub_zero queueDepth)
  | tune t =>
    have hlast : s.pid.lastError = (depthBefore (events ++ [.tune t])).getD 0 := by
      rw [depthBefore_concat]
      exact h.lastDepth
    cases t with
    | kp value => exact ⟨{ h.toUpward with kp := hok }, hlast⟩
    | ki value => exact ⟨{ h.toUpward with ki := hok }, hlast⟩
    | kd value => exact ⟨{ h.toUpward with kd := hok }, hlast⟩
    | target value => exact ⟨{ h.toUpward with target := hok }, hlast⟩
  | reset reading =>
    refine ⟨h.toUpward.reset, ?_⟩
    rw [depthBefore_concat]
    rfl
  | scaling e =>
    refine ⟨h.toUpward, ?_⟩
    rw [depthBefore_concat]
    exact h.lastDepth

theorem remembers_of_run {pid : PIDController K} (hpid : pid.Upward) (hfresh : pid.lastError = 0)
    {cooldown clock : K} (h : (machine digest cfg pid existing cooldown clock).Run events s)
    (hok : ∀ e ∈ events, e.Lawful) : Remembers events s.pid := by
  induction h with
  | nil => exact ⟨hpid, hfresh⟩
  | snoc hr hs ih =>
    obtain ⟨hbefore, hlast⟩ := List.forall_mem_append.mp hok
    exact (ih hbefore).step (hlast _ (List.mem_singleton_self _)) hs

/-- In every run, a tick that measures no less than the tick before has an output that is not
negative, and does not scale down. -/
theorem never_shrinks {reading kp ki kd outputMin outputMax integralMax cooldown clock : K}
    (hkp : 0 ≤ kp) (hki : 0 ≤ ki) (hkd : 0 ≤ kd) (houtputMax : 0 ≤ outputMax)
    (hintegralMax : 0 ≤ integralMax) (hdown : cfg.scaleDownThreshold < 0)
    (h : (machine digest cfg (.init reading kp ki kd 0 outputMin outputMax integralMax) existing
      cooldown clock).Run events s)
    (hok : ∀ e ∈ events, e.Lawful) {reading' now queueDepth : K} (hdepth : 0 ≤ queueDepth)
    (hload : NotFalling events queueDepth)
    (hs : s.step digest cfg (.tick reading' now queueDepth) = some s') :
    0 ≤ (s.pid.update reading' queueDepth).1 ∧ ∀ c, s'.system.point ≠ .scaleDown c := by
  have hpid : (PIDController.init reading kp ki kd 0 outputMin outputMax integralMax).Upward :=
    ⟨hkp, hki, hkd, rfl, houtputMax, hintegralMax, le_rfl, le_rfl⟩
  have hrem := remembers_of_run hpid rfl h hok
  have hlast : s.pid.lastError ≤ queueDepth := by
    rw [hrem.lastDepth]
    cases hd : depthBefore events with
    | none => exact hdepth
    | some last => exact hload last hd
  have hout := hrem.toUpward.output_nonneg reading' hlast
  refine ⟨hout, fun c hc => ?_⟩
  rw [step_tick hs] at hc
  exact absurd (AutoscalerSystem.output_of_scaleDown hc) (not_le.mpr (hdown.trans_le hout))

/-- A busy tick, a new gain, and ticks at a queue that is empty. -/
def retuned : List (ControlEvent ℚ) :=
  [.tick 5 1005 3, .scaling (.reserve 1005 1005 3), .scaling (.popen (some 1)), .tune (.kp 2),
    .reset 6, .tick 10 1010 0, .tick 10 1010 0]

theorem never_shrinks_retuned : ∃ s s', (routerMachine (fun _ => 0) 0 1000).Run retuned s ∧
    s.step (fun _ => 0) routerConfig (.tick 15 1040 1) = some s' ∧
    0 ≤ (s.pid.update 15 1).1 ∧ ∀ c, s'.system.point ≠ .scaleDown c := by
  have hexec : ((routerMachine (fun _ => 0) 0 1000).exec (routerMachine (fun _ => 0) 0 1000).init
      retuned).map (fun s => (s.step (fun _ => 0) routerConfig (.tick 15 1040 1)).isSome) =
      some true := by
    decide +kernel
  obtain ⟨s, hs, hstep⟩ := Option.map_eq_some_iff.mp hexec
  obtain ⟨s', hs'⟩ := Option.isSome_iff_exists.mp hstep
  have hr := (Machine.run_iff_exec _).mpr hs
  refine ⟨s, s', hr, hs', ?_⟩
  refine never_shrinks (by norm_num) (by norm_num) (by norm_num) (by norm_num) (by norm_num)
    (by norm_num [routerConfig]) hr (by simp [retuned, ControlEvent.Lawful]) (by norm_num) ?_ hs'
  simp [NotFalling, retuned, depthBefore, ControlEvent.remember]

end ControlLoop
end InferenceCluster
