import InferenceCluster.Lib.Progress
import InferenceCluster.Proofs.RingHistory
import InferenceCluster.Proofs.RouterRefinement

/-! The router's process is its parts: whatever its threads do, the ring, the heartbeat and the
autoscaler each run as they do alone, so what is proved about a part holds in the process. -/

namespace InferenceCluster

namespace HeartbeatThreads

/-- The same thread and monitor with other records of what has happened. -/
def withRecords (s : HeartbeatThreads) (pending : List Callback) (log : List MonitorEvent)
    (rounds : ℕ) : HeartbeatThreads :=
  { s with pending, log, rounds }

/-- No section reads the records. -/
theorem step_withRecords {s s' : HeartbeatThreads} {e : HeartbeatEvent} (hs : s.step e = some s')
    (pending : List Callback) (log : List MonitorEvent) (rounds : ℕ) :
    ∃ new log' rounds', s'.pending = s.pending ++ new ∧
      (s.withRecords pending log rounds).step e =
        some (s'.withRecords (pending ++ new) log' rounds') := by
  cases stepped hs with
  | started hl => exact ⟨[], log, rounds, by simp, by simp [step, withRecords, hl]⟩
  | stopped => exact ⟨[], log, rounds, by simp, by simp [step, withRecords]⟩
  | @registered nodeId address =>
    exact ⟨[], log ++ [.register nodeId address], rounds, by simp, by simp [step, withRecords]⟩
  | lookedAt hl => exact ⟨[], log, rounds, by simp, by simp [step, advance, withRecords, hl]⟩
  | began hl => exact ⟨[], log, rounds + 1, by simp, by simp [step, advance, withRecords, hl]⟩
  | ended hl => exact ⟨[], log, rounds, by simp, by simp [step, advance, withRecords, hl]⟩
  | unknown hl hn =>
    exact ⟨[], log, rounds, by simp, by simp [step, advance, withRecords, hl, hn]⟩
  | asked hl hn =>
    exact ⟨[], log, rounds, by simp, by simp [step, advance, withRecords, hl, hn]⟩
  | @recorded nodeId address todo n success hl hn =>
    refine ⟨_, log ++ [.check nodeId success], rounds, rfl, ?_⟩
    simp [step, answer, withRecords, hl, PyDict.getItem_of_get? hn,
      HeartbeatMonitor.check_eq_record hn]
  | crashed hl hn =>
    refine ⟨[], log, rounds, by simp, ?_⟩
    simp only [step, answer, hl, PyDict.getItem, hn, Option.some.injEq] at hs
    obtain rfl := LoopPoint.crashed.inj (congrArg loop hs)
    simp [step, answer, withRecords, hl, PyDict.getItem, hn]

end HeartbeatThreads

namespace AutoscalerSystem

variable {K : Type}

def withRouting (s : AutoscalerSystem K) (ring : ConsistentHashRing) (monitor : HeartbeatMonitor) :
    AutoscalerSystem K :=
  { s with ring, monitor }

variable [AddCommGroup K] [LinearOrder K] {digest : String → ℕ} {cfg : AutoscalerConfig K}

theorem scaleDown_withRouting (s : AutoscalerSystem K) (now ts queueDepth : K)
    (ring : ConsistentHashRing) (monitor : HeartbeatMonitor) :
    (s.withRouting ring monitor).step digest cfg (.scaleDown now ts queueDepth) =
      (s.step digest cfg (.scaleDown now ts queueDepth)).map (·.withRouting ring monitor) := by
  cases hp : s.point with
  | scaleDown cooldown =>
    simp only [step, withRouting, hp]
    split_ifs with hnow
    · cases s.autoscaler.scaleDown now ts queueDepth <;> rfl
    · rfl
  | idle | scaleUp cooldown | popen port | removeNode nodeId proc | terminate nodeId proc =>
    simp [step, withRouting, hp]

/-- The autoscaler changes the ring and the monitor, but does not read them. -/
theorem step_withRouting {s s' : AutoscalerSystem K} {e : AutoscalingEvent K}
    (hs : s.step digest cfg e = some s') (ring : ConsistentHashRing) (monitor : HeartbeatMonitor) :
    ∃ ring' monitor', (s.withRouting ring monitor).step digest cfg e =
      some (s'.withRouting ring' monitor') := by
  cases stepped hs with
  | tick hp hnow =>
    exact ⟨ring, monitor, by simp [step, withRouting, tick, hp, hnow]⟩
  | reserved hp hnow hts =>
    exact ⟨ring, monitor, by simp [step, withRouting, hp, hnow, hts]⟩
  | started hp => exact ⟨ring, monitor, by simp [step, withRouting, hp]⟩
  | raised hp => exact ⟨ring, monitor, by simp [step, withRouting, hp]⟩
  | @notOwned now ts queueDepth => exact ⟨ring, monitor, by rw [scaleDown_withRouting, hs]; rfl⟩
  | @forgotten now ts queueDepth => exact ⟨ring, monitor, by rw [scaleDown_withRouting, hs]; rfl⟩
  | @removed nodeId proc hp =>
    exact ⟨ring.removeNode digest nodeId, monitor, by simp [step, withRouting, hp]⟩
  | terminated hp => exact ⟨ring, monitor, by simp [step, withRouting, hp]⟩
  | setCooldown => exact ⟨ring, monitor, rfl⟩
  | answered hreg => exact ⟨ring, monitor, by simp [step, withRouting, hreg]⟩
  | gaveUp hreg => exact ⟨ring, monitor, by simp [step, withRouting, hreg]⟩
  | @added reg hreg =>
    exact ⟨ring.addNode digest { nodeId := reg.nodeId, host := "127.0.0.1", port := reg.port },
      monitor, by simp [step, withRouting, hreg]⟩
  | @registered reg hreg =>
    exact ⟨ring, monitor.register reg.nodeId reg.address, by simp [step, withRouting, hreg]⟩

end AutoscalerSystem

namespace RouterThreads

variable {K : Type}

/-- What a step is to the heartbeat; a registered worker comes from the autoscaler. -/
def asHeartbeat : RouterThreadsEvent K → Option HeartbeatEvent
  | .polling e => some e
  | .scaling (.register reg) => some (.register reg.nodeId reg.address)
  | .scaling _ => none
  | .callback _ => none

def asScaling : RouterThreadsEvent K → Option (AutoscalingEvent K)
  | .scaling e => some e
  | .polling _ => none
  | .callback _ => none

/-- The registrations of `lifespan`. -/
def startup : List HeartbeatEvent := workerNodes.map fun n => .register n.nodeId n.address

/-! ### The ring -/

def History (digest : String → ℕ) (ring : ConsistentHashRing) : Prop :=
  ∃ ops, ring = ConsistentHashRing.run digest 150 ops

theorem History.apply {digest : String → ℕ} {ring : ConsistentHashRing} (h : History digest ring)
    (op : ConsistentHashRing.Op) : History digest (ring.apply digest op) := by
  obtain ⟨ops, rfl⟩ := h
  exact ⟨ops ++ [op], by simp [ConsistentHashRing.run]⟩

theorem History.callback {digest : String → ℕ} {ring : ConsistentHashRing}
    (h : History digest ring) (cb : Callback) : History digest (cb.run digest ring) := by
  cases cb with
  | onNodeDown nodeId => exact h.apply (.removeNode nodeId)
  | onNodeUp nodeId =>
    simp only [Callback.run, onNodeUp]
    cases workerNodes.find? fun n => n.nodeId = nodeId with
    | none => exact h
    | some n => exact h.apply (.addNode n)

/-! ### The heartbeat -/

/-- `u` is the heartbeat of `s`, but that none of its callbacks has run. -/
def Heard (s : RouterThreads K) (u : HeartbeatThreads) : Prop :=
  ∃ pending log rounds, u = s.heartbeat.withRecords pending log rounds ∧
    s.pending.Sublist pending

/-- The heartbeat after the registrations. -/
def registered [Zero K] (digest : String → ℕ) (cooldown clock : K) : HeartbeatThreads :=
  { monitor := (init digest cooldown clock).scaling.monitor
    log := workerNodes.map fun n => .register n.nodeId n.address }

theorem run_startup [Zero K] (digest : String → ℕ) (cooldown clock : K) :
    (HeartbeatThreads.machine 3 2).Run startup (registered digest cooldown clock) :=
  .snoc (.snoc .nil rfl) rfl

theorem heard_init [Zero K] (digest : String → ℕ) (cooldown clock : K) :
    Heard (init digest cooldown clock) (registered digest cooldown clock) :=
  ⟨[], _, 0, rfl, .refl []⟩

variable [AddCommGroup K] [LinearOrder K] {digest : String → ℕ} {cfg : AutoscalerConfig K}
  {cooldown clock : K} {s s' : RouterThreads K}

theorem heard_step {e : RouterThreadsEvent K} {u : HeartbeatThreads} (h : Heard s u)
    (hs : s.step digest cfg e = some s') :
    (HeartbeatThreads.machine 3 2).Matches Heard s' u (asHeartbeat e) := by
  obtain ⟨pending, log, rounds, rfl, hsub⟩ := h
  cases e with
  | scaling e =>
    obtain ⟨scaling, hscale, rfl⟩ := Option.map_eq_some_iff.mp hs
    cases AutoscalerSystem.stepped hscale with
    | tick | reserved | started | raised | notOwned | forgotten | removed | terminated
      | setCooldown | answered | gaveUp | added => exact ⟨pending, log, rounds, rfl, hsub⟩
    | registered hreg => exact ⟨_, rfl, pending, _, rounds, rfl, hsub⟩
  | polling e =>
    obtain ⟨-, heartbeat, hbeat, rfl⟩ := stepped_polling hs
    obtain ⟨new, log', rounds', hp, hu⟩ :=
      HeartbeatThreads.step_withRecords hbeat pending log rounds
    refine ⟨_, hu, pending ++ new, log', rounds', rfl, ?_⟩
    change heartbeat.pending.Sublist _
    rw [hp]
    exact hsub.append (.refl new)
  | callback i =>
    obtain ⟨cb, -, rfl⟩ := Option.map_eq_some_iff.mp hs
    exact ⟨pending, log, rounds, rfl, (List.eraseIdx_sublist _ _).trans hsub⟩

theorem heard_of_run {is : List (RouterThreadsEvent K)}
    (hr : (machine digest cfg cooldown clock).Run is s) :
    ∃ u, (HeartbeatThreads.machine 3 2).Run (startup ++ is.filterMap asHeartbeat) u ∧
      Heard s u := by
  rw [← Machine.shown_const _ _ hr]
  exact hr.simulates_after (fun _ => asHeartbeat) (Machine.meets_true _ is)
    (run_startup digest cooldown clock) (heard_init digest cooldown clock)
    fun _ _ _ _ h _ hs => heard_step h hs

/-! ### The autoscaler -/

def Scaled (s : RouterThreads K) (u : AutoscalerSystem K) : Prop :=
  ∃ ring monitor, u = s.scaling.withRouting ring monitor

theorem scaled_step {e : RouterThreadsEvent K} {u : AutoscalerSystem K} (h : Scaled s u)
    (hs : s.step digest cfg e = some s') :
    (AutoscalerSystem.machine digest cfg workerNodes cooldown clock).Matches Scaled s' u
      (asScaling e) := by
  obtain ⟨ring, monitor, rfl⟩ := h
  cases e with
  | scaling e =>
    obtain ⟨scaling, hscale, rfl⟩ := Option.map_eq_some_iff.mp hs
    obtain ⟨ring', monitor', hu⟩ := AutoscalerSystem.step_withRouting hscale ring monitor
    exact ⟨_, hu, ring', monitor', rfl⟩
  | polling e =>
    obtain ⟨-, heartbeat, -, rfl⟩ := stepped_polling hs
    exact ⟨ring, monitor, rfl⟩
  | callback i =>
    obtain ⟨cb, -, rfl⟩ := Option.map_eq_some_iff.mp hs
    exact ⟨ring, monitor, rfl⟩

theorem scaled_of_run {is : List (RouterThreadsEvent K)}
    (hr : (machine digest cfg cooldown clock).Run is s) :
    ∃ u, (AutoscalerSystem.machine digest cfg workerNodes cooldown clock).Run
      (is.filterMap asScaling) u ∧ Scaled s u := by
  rw [← Machine.shown_const _ _ hr]
  exact hr.simulates_after (fun _ => asScaling) (Machine.meets_true _ is)
    (Machine.Run.nil (m := AutoscalerSystem.machine digest cfg workerNodes cooldown clock))
    ⟨_, _, rfl⟩ fun _ _ _ _ h _ hs => scaled_step h hs

/-! ### Runs -/

theorem history_step {e : RouterThreadsEvent K} (h : History digest s.scaling.ring)
    (hs : s.step digest cfg e = some s') : History digest s'.scaling.ring := by
  cases e with
  | scaling e =>
    obtain ⟨scaling, hscale, rfl⟩ := Option.map_eq_some_iff.mp hs
    cases AutoscalerSystem.stepped hscale with
    | tick | reserved | started | raised | notOwned | forgotten | terminated | setCooldown
      | answered | gaveUp | registered => exact h
    | removed hp => exact h.apply (.removeNode _)
    | added hreg => exact h.apply (.addNode _)
  | polling e =>
    obtain ⟨-, heartbeat, -, rfl⟩ := stepped_polling hs
    exact h
  | callback i =>
    obtain ⟨cb, -, rfl⟩ := Option.map_eq_some_iff.mp hs
    exact h.callback cb

/-- The heartbeat and the autoscaler run as they do alone, the ring has a history of calls, and
no lookup misses. -/
theorem runs_its_parts {is : List (RouterThreadsEvent K)}
    (hr : (machine digest cfg cooldown clock).Run is s) :
    (∃ u, (HeartbeatThreads.machine 3 2).Run (startup ++ is.filterMap asHeartbeat) u ∧
      Heard s u) ∧
    (∃ u, (AutoscalerSystem.machine digest cfg workerNodes cooldown clock).Run
      (is.filterMap asScaling) u ∧ Scaled s u) ∧
    (∃ ops, s.scaling.ring = ConsistentHashRing.run digest 150 ops) ∧
    (∀ e, s.loop ≠ .crashed e) ∧
    ∀ sessionId e, route digest s.scaling.ring s.scaling.monitor sessionId ≠
      .error (.keyError e) := by
  have hring := Machine.Reachable.invariant (I := fun s => History digest s.scaling.ring)
    ⟨workerNodes.map .addNode, rfl⟩ (fun _ _ _ h hs => history_step h hs) ⟨is, hr⟩
  obtain ⟨u, hu, hheard⟩ := heard_of_run hr
  refine ⟨⟨u, hu, hheard⟩, scaled_of_run hr, hring, fun e he => ?_, fun sessionId e he => ?_⟩
  · obtain ⟨pending, log, rounds, rfl, -⟩ := hheard
    exact (HeartbeatThreads.kept_of_run hu).alive e he
  · obtain ⟨ops, hops⟩ := hring
    obtain ⟨nodes, hnodes⟩ := (ConsistentHashRing.canonical_run digest 150 ops).lookup_ok
      sessionId |>.2 workerNodes.length
    rw [← hops] at hnodes
    rw [route, hnodes] at he
    cases hfind : nodes.find? fun node => s.scaling.monitor.isHealthy node.nodeId with
    | some node => simp [hfind] at he
    | none => simp [hfind] at he

/-- The started worker is registered, and the second callback runs before the first one. -/
def overtaken : List (RouterThreadsEvent ℤ) :=
  overlapping ++ [.scaling (.register (Autoscaler.registration 8003)), .callback 1, .callback 0]

theorem runs_its_parts_overtaken : ∃ s, (machine (fun _ => 0) bounds 0 0).Run overtaken s ∧
    s.scaling.ring.nodes.keys = ["worker-a", "worker-b", "worker-auto-8003"] ∧
    (∃ u, (HeartbeatThreads.machine 3 2).Run (startup ++ overtaken.filterMap asHeartbeat) u ∧
      Heard s u) ∧
    ∀ sessionId e, route (fun _ => 0) s.scaling.ring s.scaling.monitor sessionId ≠
      .error (.keyError e) := by
  have hexec : ((machine (fun _ => 0) bounds 0 0).exec (machine (fun _ => 0) bounds 0 0).init
      overtaken).map (fun s => s.scaling.ring.nodes.keys) =
        some ["worker-a", "worker-b", "worker-auto-8003"] := by
    decide +kernel
  obtain ⟨s, hs, hmembers⟩ := Option.map_eq_some_iff.mp hexec
  have hrun := (Machine.run_iff_exec _).mpr hs
  obtain ⟨hheard, -, -, -, hroute⟩ := runs_its_parts hrun
  exact ⟨s, hrun, hmembers, hheard, hroute⟩

end RouterThreads
end InferenceCluster
