import InferenceCluster.Sanity.Autoscaling
import InferenceCluster.Sanity.HeartbeatThreads
import InferenceCluster.Spec.RouterThreads

/-! What holds between any two sections of the router's threads: the id of a started worker is in
one place at a time, and the round of the heartbeat knows registered nodes only. -/

namespace InferenceCluster

/-- The id of the worker that is being started. -/
def TickPoint.startingIds {K : Type} : TickPoint K → List String
  | .popen port => [Autoscaler.autoId port]
  | _ => []

/-! ### Ids -/

namespace AutoscalerSystem

variable {K : Type}

/-- The ids that are waiting for the monitor, and the ids in it. -/
def ids (s : AutoscalerSystem K) : List String :=
  s.point.startingIds ++
    (s.polling ++ s.adding ++ s.registering).map Registration.nodeId ++ s.monitor.nodes.keys

structure Placed (s : AutoscalerSystem K) : Prop where
  once : s.ids.Nodup
  below : ∀ port, Autoscaler.autoId port ∈ s.ids → port < s.autoscaler.nextPort

variable {s s' : AutoscalerSystem K}

/-- An id that is waiting is not in the monitor. -/
theorem Placed.unknown (h : s.Placed) {reg : Registration} (hreg : reg ∈ s.registering) :
    s.monitor.nodes.contains reg.nodeId = false := by
  have hsplit : s.ids = (s.point.startingIds ++ (s.polling ++ s.adding).map Registration.nodeId) ++
      (s.registering.map Registration.nodeId ++ s.monitor.nodes.keys) := by
    simp [ids]
  have honce := h.once
  rw [hsplit] at honce
  rw [PyDict.contains_eq_false_iff, PyDict.get?_eq_none_iff]
  exact List.disjoint_of_nodup_append honce.of_append_right (List.mem_map_of_mem hreg)

/-- A registration that reaches the ring is the only one of its id. -/
theorem Placed.added (h : s.Placed) {reg : Registration} (hreg : reg ∈ s.adding) :
    ∀ reg' ∈ s.registering, reg'.nodeId ≠ reg.nodeId := by
  have hsplit : s.ids.Perm ((s.registering.map Registration.nodeId ++
      s.adding.map Registration.nodeId) ++ (s.point.startingIds ++
        s.polling.map Registration.nodeId ++ s.monitor.nodes.keys)) := by
    refine List.perm_iff_count.mpr fun a => ?_
    simp only [ids, List.map_append, List.count_append]
    omega
  have honce := (hsplit.nodup_iff.mp h.once).of_append_left
  intro reg' hreg' he
  exact List.disjoint_of_nodup_append honce (List.mem_map_of_mem hreg')
    (he ▸ List.mem_map_of_mem hreg)

/-- No id is handed out, and none is in more places. -/
theorem Placed.mono (h : s.Placed) (hn : s'.autoscaler.nextPort = s.autoscaler.nextPort)
    (hids : ∀ k, s'.ids.count k ≤ s.ids.count k) : s'.Placed := by
  refine ⟨List.nodup_iff_count_le_one.mpr fun k => ?_, fun port hp => ?_⟩
  · exact (hids k).trans (List.nodup_iff_count_le_one.mp h.once k)
  · rw [hn]
    exact h.below port (List.count_pos_iff.mp ((List.count_pos_iff.mpr hp).trans_le (hids _)))

/-- A port from `nextPort` on is in no id yet. -/
theorem Placed.reserved (h : s.Placed)
    (hids : s'.ids = Autoscaler.autoId s.autoscaler.nextPort :: s.ids)
    (hn : s'.autoscaler.nextPort = s.autoscaler.nextPort + 1) : s'.Placed := by
  refine ⟨?_, fun port hm => ?_⟩
  · rw [hids, List.nodup_cons]
    exact ⟨fun hm => (h.below _ hm).false, h.once⟩
  · rw [hids, List.mem_cons] at hm
    rw [hn]
    rcases hm with he | hm
    · rw [autoId_injective he]
      exact Nat.lt_succ_self _
    · exact Nat.lt_succ_of_lt (h.below port hm)

theorem count_erase {l : List Registration} {reg : Registration} (hreg : reg ∈ l) (k : String) :
    (l.map Registration.nodeId).count k =
      ((l.erase reg).map Registration.nodeId).count k + [reg.nodeId].count k := by
  rw [((List.perm_cons_erase hreg).map Registration.nodeId).count_eq, List.map_cons,
    List.count_cons, List.count_singleton]

theorem placed_init [Zero K] (digest : String → ℕ) (cooldown clock : K) :
    (init digest workerNodes cooldown clock).Placed := by
  have hids : (init digest workerNodes cooldown clock).ids = workerNodes.map Node.nodeId := rfl
  refine ⟨hids ▸ by decide, fun port hp => ?_⟩
  rw [hids] at hp
  obtain ⟨n, hn, hid⟩ := List.mem_map.mp hp
  have hbase := autoId_not_baseline port
  rw [isBaseline, List.any_eq_false] at hbase
  exact absurd (decide_eq_true hid) (hbase n hn)

variable [AddCommGroup K] [LinearOrder K] {digest : String → ℕ} {cfg : AutoscalerConfig K}

theorem Placed.step {e : AutoscalingEvent K} (h : s.Placed) (hs : Stepped digest cfg s e s') :
    s'.Placed := by
  cases hs with
  | @tick now output hp =>
    refine h.mono rfl fun k => le_of_eq ?_
    have hpt : (s.tick cfg now output).point.startingIds = s.point.startingIds := by
      rcases s.tick_point cfg now output with hpt | ⟨hpt, -⟩ | ⟨hpt, -⟩ <;> rw [hpt, hp] <;> rfl
    rw [ids, hpt]
    rfl
  | reserved hp => exact h.reserved (by rw [ids, ids, hp]; rfl) rfl
  | started hp =>
    refine h.mono rfl fun k => le_of_eq ?_
    simp only [ids, hp, TickPoint.startingIds, Autoscaler.registration, List.map_append,
      List.count_append, List.map_cons, List.map_nil, List.count_nil]
    omega
  | raised | notOwned | forgotten | removed | terminated =>
    refine h.mono rfl fun k => ?_
    simp only [ids, TickPoint.startingIds, List.count_append, List.count_nil]
    omega
  | setCooldown => exact ⟨h.once, h.below⟩
  | answered hreg =>
    refine h.mono rfl fun k => le_of_eq ?_
    simp only [ids, List.map_append, List.count_append, count_erase hreg, List.map_cons,
      List.map_nil]
    omega
  | gaveUp hreg =>
    refine h.mono rfl fun k => ?_
    simp only [ids, List.map_append, List.count_append, count_erase hreg]
    omega
  | added hreg =>
    refine h.mono rfl fun k => le_of_eq ?_
    simp only [ids, List.map_append, List.count_append, count_erase hreg, List.map_cons,
      List.map_nil]
    omega
  | @registered reg hreg =>
    refine h.mono rfl fun k => le_of_eq ?_
    have hkeys : (s.monitor.register reg.nodeId reg.address).nodes.keys =
        s.monitor.nodes.keys ++ [reg.nodeId] := by
      have hnew := h.unknown hreg
      rw [PyDict.contains_eq_false_iff, PyDict.get?_eq_none_iff] at hnew
      rw [HeartbeatMonitor.register, PyDict.keys_set, if_neg hnew]
    simp only [ids, hkeys, List.map_append, List.count_append, count_erase hreg]
    omega

end AutoscalerSystem

/-! ### Threads -/

namespace HeartbeatThreads

/-- The polling thread changes entries only. -/
theorem keys_step {s s' : HeartbeatThreads} {e : HeartbeatEvent} (hs : Stepped s e s')
    (hreg : ∀ nodeId address, e ≠ .register nodeId address) :
    s'.monitor.nodes.keys = s.monitor.nodes.keys := by
  cases hs with
  | registered => exact absurd rfl (hreg _ _)
  | @recorded nodeId address todo n success hl hn =>
    rw [HeartbeatMonitor.check_eq_record hn, PyDict.keys_set, if_pos]
    exact (PyDict.mem_keys_iff _ _).mpr ⟨n, hn⟩
  | started | stopped | lookedAt | began | ended | unknown | asked | crashed => rfl

end HeartbeatThreads

namespace RouterThreads

variable {K : Type}

structure Sound (s : RouterThreads K) : Prop where
  placed : s.scaling.Placed
  known : ∀ nodeId ∈ s.loop.todo, s.scaling.monitor.nodes.contains nodeId = true

theorem sound_init [Zero K] (digest : String → ℕ) (cooldown clock : K) :
    (init digest cooldown clock).Sound :=
  ⟨AutoscalerSystem.placed_init digest cooldown clock, fun _ hm => absurd hm List.not_mem_nil⟩

variable [AddCommGroup K] [LinearOrder K] {digest : String → ℕ} {cfg : AutoscalerConfig K}
  {s s' : RouterThreads K}

theorem stepped_polling {e : HeartbeatEvent} (h : s.step digest cfg (.polling e) = some s') :
    (∀ nodeId address, e ≠ .register nodeId address) ∧
    ∃ heartbeat, s.heartbeat.step e = some heartbeat ∧ s' = s.withHeartbeat heartbeat := by
  have hstep : (∀ nodeId address, e ≠ .register nodeId address) →
      (s.heartbeat.step e).map s.withHeartbeat = some s' := by
    intro hreg
    cases e with
    | register nodeId address => exact absurd rfl (hreg _ _)
    | start | stop | advance | answer success => exact h
  have hreg : ∀ nodeId address, e ≠ .register nodeId address := by
    rintro nodeId address rfl
    cases h
  obtain ⟨heartbeat, hbeat, hs⟩ := Option.map_eq_some_iff.mp (hstep hreg)
  exact ⟨hreg, heartbeat, hbeat, hs.symm⟩

theorem Sound.scaling {e : AutoscalingEvent K} {scaling : AutoscalerSystem K} (h : s.Sound)
    (hs : AutoscalerSystem.Stepped digest cfg s.scaling e scaling) : { s with scaling }.Sound := by
  refine ⟨h.placed.step hs, fun nodeId hm => ?_⟩
  have hknown := h.known nodeId hm
  cases hs with
  | registered hreg =>
    rw [PyDict.contains, HeartbeatMonitor.register, PyDict.get?_set]
    split_ifs
    · rfl
    · exact hknown
  | tick | reserved | started | raised | notOwned | forgotten | removed | terminated | setCooldown
    | answered | gaveUp | added => exact hknown

theorem Sound.step {e : RouterThreadsEvent K} (h : s.Sound) (hs : s.step digest cfg e = some s') :
    s'.Sound := by
  cases e with
  | scaling e =>
    obtain ⟨scaling, hscale, rfl⟩ := Option.map_eq_some_iff.mp hs
    exact h.scaling (AutoscalerSystem.stepped hscale)
  | polling e =>
    obtain ⟨hreg, heartbeat, hbeat, rfl⟩ := stepped_polling hs
    have hstepped := HeartbeatThreads.stepped hbeat
    refine ⟨h.placed.mono rfl fun k => le_of_eq ?_, HeartbeatThreads.todo_step hstepped h.known⟩
    rw [AutoscalerSystem.ids, AutoscalerSystem.ids]
    rw [show (s.withHeartbeat heartbeat).scaling.monitor.nodes.keys = s.scaling.monitor.nodes.keys
      from HeartbeatThreads.keys_step hstepped hreg]
    rfl
  | callback i =>
    obtain ⟨cb, -, rfl⟩ := Option.map_eq_some_iff.mp hs
    exact ⟨h.placed.mono rfl fun _ => le_rfl, h.known⟩

end RouterThreads
end InferenceCluster
