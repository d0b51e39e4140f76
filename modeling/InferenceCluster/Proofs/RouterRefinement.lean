import InferenceCluster.Lib.Progress
import InferenceCluster.Sanity.RouterThreads

/-! The router with its threads refines the router whose checks, scale actions, registrations and
callbacks happen in one step each. A scale action is taken in one step at the end of its sections:
the start of a worker when `Popen` answers, the removal when the node leaves the ring. A started
worker is registered in one step when its node joins the ring; the monitor comes to know it in a
later section. -/

namespace InferenceCluster

namespace HeartbeatMonitor

/-- `m'` knows the nodes of `waiting` already, and is as `m` otherwise. -/
structure Ahead (m : HeartbeatMonitor) (waiting : List Registration) (m' : HeartbeatMonitor) :
    Prop where
  failureThreshold : m'.failureThreshold = m.failureThreshold
  recoveryThreshold : m'.recoveryThreshold = m.recoveryThreshold
  known : ∀ reg ∈ waiting, m'.nodes.get? reg.nodeId = some ⟨reg.address, .unknown, 0, 0, 0⟩
  rest : ∀ nodeId ∉ waiting.map Registration.nodeId,
    m'.nodes.get? nodeId = m.nodes.get? nodeId

variable {m m' : HeartbeatMonitor} {waiting : List Registration} {reg : Registration}

theorem Ahead.refl (m : HeartbeatMonitor) : m.Ahead [] m :=
  ⟨rfl, rfl, fun _ hreg => absurd hreg List.not_mem_nil, fun _ _ => rfl⟩

theorem Ahead.added (h : m.Ahead waiting m') (hnew : ∀ reg' ∈ waiting, reg'.nodeId ≠ reg.nodeId) :
    m.Ahead (waiting ++ [reg]) (m'.register reg.nodeId reg.address) := by
  refine ⟨h.failureThreshold, h.recoveryThreshold, fun reg' hreg' => ?_, fun nodeId hid => ?_⟩
  · rcases List.mem_append.mp hreg' with hreg' | hreg'
    · rw [register, PyDict.get?_set, if_neg (hnew reg' hreg'), h.known reg' hreg']
    · rw [List.mem_singleton.mp hreg', register, PyDict.get?_set_self]
  · rw [List.map_append, List.mem_append, not_or] at hid
    have hne : nodeId ≠ reg.nodeId := by simpa using hid.2
    rw [register, PyDict.get?_set, if_neg hne, h.rest nodeId hid.1]

theorem Ahead.registered (h : m.Ahead waiting m') (hreg : reg ∈ waiting) :
    (m.register reg.nodeId reg.address).Ahead (waiting.erase reg) m' := by
  refine ⟨h.failureThreshold, h.recoveryThreshold,
    fun reg' hreg' => h.known reg' (List.mem_of_mem_erase hreg'), fun nodeId hid => ?_⟩
  rw [register, PyDict.get?_set]
  split_ifs with he
  · rw [he, h.known reg hreg]
  · refine h.rest nodeId fun hm => hid ?_
    obtain ⟨reg', hreg', rfl⟩ := List.mem_map.mp hm
    have hne : reg' ≠ reg := fun hr => he (hr ▸ rfl)
    exact List.mem_map_of_mem ((List.mem_erase_of_ne hne).mpr hreg')

/-- A check of a node that both know does the same to both. -/
theorem Ahead.check (h : m.Ahead waiting m') {nodeId : String} {n : NodeHealth}
    (hn : m.nodes.get? nodeId = some n) (hid : nodeId ∉ waiting.map Registration.nodeId)
    (success : Bool) :
    (m.check nodeId success).1.Ahead waiting (m'.check nodeId success).1 ∧
      (m'.check nodeId success).2 = (m.check nodeId success).2 := by
  have hrecord : m'.record nodeId n success = m.record nodeId n success := by
    simp only [record, h.failureThreshold, h.recoveryThreshold]
  rw [check_eq_record hn, check_eq_record ((h.rest nodeId hid).trans hn), hrecord]
  refine ⟨⟨h.failureThreshold, h.recoveryThreshold, fun reg hreg => ?_, fun k hk => ?_⟩, rfl⟩
  · have hne : reg.nodeId ≠ nodeId := fun he => hid (he ▸ List.mem_map_of_mem hreg)
    rw [PyDict.get?_set, if_neg hne, h.known reg hreg]
  · rw [PyDict.get?_set, PyDict.get?_set, h.rest k hk]

/-- A node that is not known is not healthy, nor is one that is only known. -/
theorem Ahead.isHealthy (h : m.Ahead waiting m')
    (hnew : ∀ reg ∈ waiting, m.nodes.contains reg.nodeId = false) (nodeId : String) :
    m'.isHealthy nodeId = m.isHealthy nodeId := by
  by_cases hid : nodeId ∈ waiting.map Registration.nodeId
  · obtain ⟨reg, hreg, rfl⟩ := List.mem_map.mp hid
    have hnone := (PyDict.contains_eq_false_iff _ _).mp (hnew reg hreg)
    rw [HeartbeatMonitor.isHealthy, HeartbeatMonitor.isHealthy, h.known reg hreg, hnone]
    rfl
  · rw [HeartbeatMonitor.isHealthy, HeartbeatMonitor.isHealthy, h.rest nodeId hid]

end HeartbeatMonitor

/-- At this point the tick thread has made `a` of `a₀`, the autoscaler before the scale action
that is under way. -/
def TickPoint.Made {K : Type} (point : TickPoint K) (a a₀ : Autoscaler K) : Prop :=
  match point with
  | .popen port => port = a₀.nextPort ∧ ∃ now ts queueDepth, a = a₀.reserve now ts queueDepth
  | .removeNode nodeId _ =>
    ∃ now ts queueDepth, a₀.scaleDown now ts queueDepth = some (nodeId, a)
  | .idle | .scaleUp _ | .scaleDown _ | .terminate _ _ => a = a₀

namespace Autoscaler

variable {K : Type}

/-- The last scale action, read off the log. -/
def last (a : Autoscaler K) (event : K → K → K → RouterEvent K) : Option (RouterEvent K) :=
  a.scaleEvents.getLast?.map fun e => event a.lastScale e.ts e.queueDepth

theorem last_reserve (a : Autoscaler K) (now ts queueDepth : K)
    (event : K → K → K → RouterEvent K) :
    (a.reserve now ts queueDepth).last event = some (event now ts queueDepth) := by
  simp [last, reserve]

theorem last_of_scaleDown {a a' : Autoscaler K} {nodeId : String} {now ts queueDepth : K}
    (h : a.scaleDown now ts queueDepth = some (nodeId, a'))
    (event : K → K → K → RouterEvent K) : a'.last event = some (event now ts queueDepth) := by
  obtain ⟨proc, -, rfl⟩ := scaleDown_eq_some h
  simp [last]

end Autoscaler

namespace RouterThreads

variable {K : Type}

/-- The step of the router with whole steps that a section completes. -/
def completes (s : RouterThreads K) : RouterThreadsEvent K → Option (RouterEvent K)
  | .scaling (.popen proc) =>
    s.scaling.autoscaler.last fun now ts queueDepth => .scaleUp now ts queueDepth proc
  | .scaling .removeNode => s.scaling.autoscaler.last .scaleDown
  | .scaling (.giveUp reg) => some (.giveUp reg)
  | .scaling (.addToRing reg) => some (.addToRing reg)
  | .polling (.answer success) =>
    match s.loop with
    | .probing nodeId _ _ => some (.check nodeId success)
    | _ => none
  | .callback _ => some .runCallback
  | _ => none

/-- The threads of the callbacks run in the order they were started in. -/
def inOrder (_ : RouterThreads K) : RouterThreadsEvent K → Bool
  | .callback i => i = 0
  | _ => true

/-- The same router, but for the scale action and the registrations that are under way. -/
structure Refines (s : RouterThreads K) (t : RouterSystem K) : Prop where
  ring : t.ring = s.scaling.ring
  monitor : s.scaling.monitor.Ahead s.scaling.registering t.monitor
  pending : t.pending = s.pending
  registering : t.registering.Perm (s.scaling.polling ++ s.scaling.adding)
  autoscaler : s.scaling.point.Made s.scaling.autoscaler t.autoscaler

variable {digest : String → ℕ}

theorem refines_init [Zero K] (cooldown clock : K) :
    Refines (init digest cooldown clock) (RouterSystem.init digest K) :=
  ⟨rfl, .refl _, rfl, .refl _, rfl⟩

theorem Refines.isHealthy {s : RouterThreads K} {t : RouterSystem K} (h : Refines s t)
    (hs : s.Sound) (nodeId : String) :
    t.monitor.isHealthy nodeId = s.scaling.monitor.isHealthy nodeId :=
  h.monitor.isHealthy (fun _ hreg => hs.placed.unknown hreg) nodeId

/-- A section is matched by the step that it completes, or by none. -/
def Matched (digest : String → ℕ) [Zero K] (s : RouterThreads K) (e : RouterThreadsEvent K)
    (s' : RouterThreads K) (t : RouterSystem K) : Prop :=
  (RouterSystem.machine digest K).Matches Refines s' t (completes s e)

theorem matched_none [Zero K] {s s' : RouterThreads K} {t : RouterSystem K}
    {e : RouterThreadsEvent K} (hc : completes s e = none) (h : Refines s' t) :
    Matched digest s e s' t := by
  rwa [Matched, hc]

theorem matched_some [Zero K] {s s' : RouterThreads K} {t t' : RouterSystem K}
    {e : RouterThreadsEvent K} {k : RouterEvent K} (hc : completes s e = some k)
    (ht : t.step digest k = some t') (h : Refines s' t') : Matched digest s e s' t := by
  rw [Matched, hc]
  exact ⟨t', ht, h⟩

theorem Refines.polled {s : RouterThreads K} {t : RouterSystem K} {heartbeat : HeartbeatThreads}
    (h : Refines s t) (hm : heartbeat.monitor = s.scaling.monitor)
    (hp : heartbeat.pending = s.pending) : Refines (s.withHeartbeat heartbeat) t := by
  have hmonitor : heartbeat.monitor.Ahead s.scaling.registering t.monitor := hm ▸ h.monitor
  exact ⟨h.ring, hmonitor, h.pending.trans hp.symm, h.registering, h.autoscaler⟩

theorem matched_polling [Zero K] {s : RouterThreads K} {t : RouterSystem K} {e : HeartbeatEvent}
    {heartbeat : HeartbeatThreads} (h : Refines s t) (hsound : s.Sound)
    (hs : HeartbeatThreads.Stepped s.heartbeat e heartbeat)
    (hreg : ∀ nodeId address, e ≠ .register nodeId address) :
    Matched digest s (.polling e) (s.withHeartbeat heartbeat) t := by
  have hknown := hsound.known
  cases hs with
  | registered => exact absurd rfl (hreg _ _)
  | started | stopped | lookedAt | began | ended | unknown | asked =>
    exact matched_none rfl (h.polled rfl rfl)
  | @recorded nodeId address todo n success hl hn =>
    have hc : completes s (.polling (.answer success)) = some (.check nodeId success) := by
      rw [completes, show s.loop = _ from hl]
    -- the node is in the monitor, so it is none of those that are ahead
    have hid : nodeId ∉ s.scaling.registering.map Registration.nodeId := by
      intro hm
      obtain ⟨reg, hreg, rfl⟩ := List.mem_map.mp hm
      have hnew := hsound.placed.unknown hreg
      rw [PyDict.contains, show s.scaling.monitor.nodes.get? reg.nodeId = some n from hn] at hnew
      cases hnew
    obtain ⟨hmonitor, hcb⟩ := h.monitor.check hn hid success
    refine matched_some hc rfl ⟨h.ring, hmonitor, ?_, h.registering, h.autoscaler⟩
    rw [hcb, h.pending]
    rfl
  | @crashed nodeId address todo success e hl hn =>
    rw [show s.loop = _ from hl] at hknown
    have hmem := hknown nodeId List.mem_cons_self
    rw [PyDict.contains, show s.scaling.monitor.nodes.get? nodeId = none from hn] at hmem
    cases hmem

theorem matched_callback [Zero K] {s : RouterThreads K} {t : RouterSystem K} {cb : Callback}
    (h : Refines s t) (hcb : s.pending[0]? = some cb) :
    Matched digest s (.callback 0) { s with
      scaling.ring := cb.run digest s.scaling.ring
      pending := s.pending.eraseIdx 0 } t := by
  cases hp : s.pending with
  | nil => simp [hp] at hcb
  | cons first pending =>
    obtain rfl : first = cb := by simpa [hp] using hcb
    have ht : t.step digest .runCallback =
        some { t with ring := first.run digest t.ring, pending } := by
      rw [RouterSystem.step, h.pending, hp]
    exact matched_some rfl ht ⟨by rw [h.ring], h.monitor, rfl, h.registering, h.autoscaler⟩

variable [AddCommGroup K] [LinearOrder K] {cfg : AutoscalerConfig K}
  {s : RouterThreads K} {t : RouterSystem K}

/-! ### Sections of `_scale_up` and of the registrations -/

theorem matched_scaling {e : AutoscalingEvent K} {scaling : AutoscalerSystem K} (h : Refines s t)
    (hsound : s.Sound) (hs : AutoscalerSystem.Stepped digest cfg s.scaling e scaling)
    (hdown : ∀ now ts queueDepth, e ≠ .scaleDown now ts queueDepth) :
    Matched digest s (.scaling e) { s with scaling } t := by
  have hmade := h.autoscaler
  cases hs with
  | @tick now output hp hnow =>
    rw [hp] at hmade
    refine matched_none rfl ⟨h.ring, h.monitor, h.pending, h.registering, ?_⟩
    have hpoint := s.scaling.tick_point cfg now output
    rcases hpoint with hpt | ⟨hpt, -⟩ | ⟨hpt, -⟩ <;> exact hpt ▸ hmade
  | @reserved now ts queueDepth cooldown hp hnow hts =>
    rw [hp] at hmade
    have hsame : s.scaling.autoscaler = t.autoscaler := hmade
    exact matched_none rfl ⟨h.ring, h.monitor, h.pending, h.registering,
      by rw [hsame], now, ts, queueDepth, by rw [hsame]⟩
  | @started port proc hp =>
    rw [hp] at hmade
    obtain ⟨rfl, now, ts, queueDepth, ha⟩ := hmade
    have hc : completes s (.scaling (.popen (some proc))) =
        some (.scaleUp now ts queueDepth (some proc)) := by
      rw [completes, ha, Autoscaler.last_reserve]
    refine matched_some hc rfl ⟨h.ring, h.monitor, h.pending, ?_, ?_⟩
    · change (t.registering ++ [Autoscaler.registration _]).Perm _
      refine (h.registering.append_right _).trans ?_
      rw [List.append_assoc, List.append_assoc]
      exact List.perm_append_comm.append_left _
    · change s.scaling.autoscaler.started _ proc = _
      rw [ha]
      rfl
  | @raised port hp =>
    rw [hp] at hmade
    obtain ⟨rfl, now, ts, queueDepth, ha⟩ := hmade
    have hc : completes s (.scaling (.popen none)) = some (.scaleUp now ts queueDepth none) := by
      rw [completes, ha, Autoscaler.last_reserve]
    exact matched_some hc rfl
      ⟨h.ring, h.monitor, h.pending, by simpa [Autoscaler.scaleUp] using h.registering, ha⟩
  | notOwned hp => exact absurd rfl (hdown _ _ _)
  | forgotten hp hnow hts hproc => exact absurd rfl (hdown _ _ _)
  | @removed nodeId proc hp =>
    rw [hp] at hmade
    obtain ⟨now, ts, queueDepth, ha⟩ := hmade
    have hc : completes s (.scaling .removeNode) = some (.scaleDown now ts queueDepth) := by
      rw [completes, Autoscaler.last_of_scaleDown ha]
    have ht : t.step digest (.scaleDown now ts queueDepth) = some { t with
        autoscaler := s.scaling.autoscaler
        ring := t.ring.removeNode digest nodeId } := by
      rw [RouterSystem.step, ha]
    exact matched_some hc ht ⟨by rw [h.ring], h.monitor, h.pending, h.registering, rfl⟩
  | @terminated nodeId proc hp =>
    rw [hp] at hmade
    exact matched_none rfl ⟨h.ring, h.monitor, h.pending, h.registering, hmade⟩
  | setCooldown =>
    exact matched_none rfl ⟨h.ring, h.monitor, h.pending, h.registering, h.autoscaler⟩
  | @answered reg hreg =>
    refine matched_none rfl ⟨h.ring, h.monitor, h.pending, h.registering.trans ?_, h.autoscaler⟩
    refine ((List.perm_cons_erase hreg).append_right _).trans ?_
    rw [← List.append_assoc]
    exact (List.perm_append_singleton reg _).symm
  | @gaveUp reg hreg =>
    have hmem : reg ∈ t.registering := h.registering.mem_iff.mpr (List.mem_append_left _ hreg)
    refine matched_some rfl (if_pos hmem)
      ⟨h.ring, h.monitor, h.pending, (h.registering.erase reg).trans ?_, h.autoscaler⟩
    rw [List.erase_append_left _ hreg]
  | @added reg hreg =>
    have hmem : reg ∈ t.registering := h.registering.mem_iff.mpr (List.mem_append_right _ hreg)
    have hring : (Autoscaler.addToRing digest t.ring t.monitor reg).1 =
        s.scaling.ring.addNode digest
          { nodeId := reg.nodeId, host := "127.0.0.1", port := reg.port } := by
      rw [h.ring]
      rfl
    refine matched_some rfl (if_pos hmem)
      ⟨hring, h.monitor.added (hsound.placed.added hreg), h.pending, ?_, h.autoscaler⟩
    refine ((h.registering.trans List.perm_append_comm).erase reg).trans ?_
    rw [List.erase_append_left _ hreg]
    exact List.perm_append_comm
  | @registered reg hreg =>
    exact matched_none rfl
      ⟨h.ring, h.monitor.registered hreg, h.pending, h.registering, h.autoscaler⟩

/-- `_scale_down` is under way once a worker is forgotten. -/
theorem matched_scaleDown {now ts queueDepth : K} {scaling : AutoscalerSystem K} (h : Refines s t)
    (hs : s.scaling.step digest cfg (.scaleDown now ts queueDepth) = some scaling) :
    Matched digest s (.scaling (.scaleDown now ts queueDepth)) { s with scaling } t := by
  have hmade := h.autoscaler
  simp only [AutoscalerSystem.step] at hs
  split at hs <;> rename_i hp
  · rw [hp] at hmade
    have hsame : s.scaling.autoscaler = t.autoscaler := hmade
    split_ifs at hs with hnow
    split at hs <;> rename_i hd
    · obtain rfl := Option.some.inj hs
      exact matched_none rfl ⟨h.ring, h.monitor, h.pending, h.registering, hsame⟩
    · obtain rfl := Option.some.inj hs
      exact matched_none rfl
        ⟨h.ring, h.monitor, h.pending, h.registering, now, ts, queueDepth, hsame ▸ hd⟩
  · cases hs

/-! ### Runs -/

theorem matched_step {e : RouterThreadsEvent K} {s' : RouterThreads K} (h : Refines s t)
    (hsound : s.Sound) (hok : inOrder s e) (hs : s.step digest cfg e = some s') :
    Matched digest s e s' t := by
  cases e with
  | scaling e =>
    obtain ⟨scaling, hscale, rfl⟩ := Option.map_eq_some_iff.mp hs
    by_cases hdown : ∃ now ts queueDepth, e = .scaleDown now ts queueDepth
    · obtain ⟨now, ts, queueDepth, rfl⟩ := hdown
      exact matched_scaleDown h hscale
    · push Not at hdown
      exact matched_scaling h hsound (AutoscalerSystem.stepped hscale) hdown
  | polling e =>
    obtain ⟨hreg, heartbeat, hbeat, rfl⟩ := stepped_polling hs
    exact matched_polling h hsound (HeartbeatThreads.stepped hbeat) hreg
  | callback i =>
    obtain ⟨cb, hcb, rfl⟩ := Option.map_eq_some_iff.mp hs
    obtain rfl : i = 0 := by simpa [inOrder] using hok
    exact matched_callback h hcb

variable {cooldown clock : K}

theorem sound_of_reachable (h : (machine digest cfg cooldown clock).Reachable s) : s.Sound :=
  h.invariant (sound_init digest cooldown clock) fun _ _ _ hI hs => hI.step hs

/-- The threads of the router, whose callbacks run in order, do what the router with whole
steps does. A node that the monitor does not know yet is unknown there: no lookup tells the two
routers apart. -/
theorem refines_whole_steps {is : List (RouterThreadsEvent K)}
    (hr : (machine digest cfg cooldown clock).Run is s)
    (hok : (machine digest cfg cooldown clock).Meets (fun s e => inOrder s e) is) :
    ∃ t, (RouterSystem.machine digest K).Run
        ((machine digest cfg cooldown clock).shown completes is) t ∧
      Refines s t ∧
      ∀ nodeId, t.monitor.isHealthy nodeId = s.scaling.monitor.isHealthy nodeId := by
  have hsound : ∀ s, (machine digest cfg cooldown clock).Reachable s → s.Sound :=
    fun _ hs => sound_of_reachable hs
  obtain ⟨t, ht, href⟩ := hr.simulates_after completes (hok.and_reachable hsound)
    (Machine.Run.nil (m := RouterSystem.machine digest K)) (refines_init cooldown clock)
    fun _ _ _ _ h ho hs => matched_step h ho.1 ho.2 hs
  exact ⟨t, ht, href, href.isHealthy (hsound s ⟨is, hr⟩)⟩

/-- The bounds of the autoscaler, with thresholds 1 and -1. -/
def bounds : AutoscalerConfig ℤ := { scaleUpThreshold := 1, scaleDownThreshold := -1 }

/-- A round of checks meets a worker that starts; the next one meets its removal. -/
def overlapping : List (RouterThreadsEvent ℤ) :=
  [.polling .start, .scaling (.tick 0 1), .polling .advance, .scaling (.reserve 0 0 0),
    .polling .advance, .polling .advance, .scaling (.popen (some 1)), .polling (.answer true),
    .scaling (.answer (Autoscaler.registration 8003)), .polling .advance,
    .scaling (.addToRing (Autoscaler.registration 8003)), .polling (.answer true),
    .polling .advance, .polling .advance, .polling .advance, .scaling (.tick 0 (-1)),
    .polling .advance, .polling (.answer true), .scaling (.scaleDown 0 0 0), .polling .advance,
    .polling (.answer true)]

/-- The worker leaves the ring before the monitor knows it. -/
def removed : List (RouterThreadsEvent ℤ) :=
  overlapping ++ [.callback 0, .scaling .removeNode, .callback 0]

theorem refines_whole_steps_removed : ∃ s t, (machine (fun _ => 0) bounds 0 0).Run removed s ∧
    s.scaling.ring.nodes.keys = ["worker-a", "worker-b"] ∧
    s.scaling.monitor.nodes.contains "worker-auto-8003" = false ∧
    (RouterSystem.machine (fun _ => 0) ℤ).Run
      ((machine (fun _ => 0) bounds 0 0).shown completes removed) t ∧ Refines s t ∧
    ∀ nodeId, t.monitor.isHealthy nodeId = s.scaling.monitor.isHealthy nodeId := by
  have hexec : ((machine (fun _ => 0) bounds 0 0).exec (machine (fun _ => 0) bounds 0 0).init
      removed).map (fun s => (s.scaling.ring.nodes.keys,
        s.scaling.monitor.nodes.contains "worker-auto-8003")) =
      some (["worker-a", "worker-b"], false) := by
    decide +kernel
  obtain ⟨s, hs, hparts⟩ := Option.map_eq_some_iff.mp hexec
  obtain ⟨hmembers, hunknown⟩ := Prod.mk.inj hparts
  have hrun := (Machine.run_iff_exec _).mpr hs
  obtain ⟨t, ht, href, hhealthy⟩ := refines_whole_steps hrun
    (Machine.meets_of_checks _ (by decide +kernel))
  exact ⟨s, t, hrun, hmembers, hunknown, ht, href, hhealthy⟩

end RouterThreads
end InferenceCluster
