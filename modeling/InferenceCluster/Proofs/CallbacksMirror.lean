import InferenceCluster.Sanity.Heartbeat

/-! The callbacks of a node that is registered once tell its status: they alternate, the last
one is `on_node_up` exactly while the node is healthy, and no run of checks as long as the
threshold leaves the status as it was. -/

namespace InferenceCluster

namespace HeartbeatMonitor

/-- The entry of one node alone after the outcomes of its checks, and its callbacks. -/
def follow (m : HeartbeatMonitor) (nodeId : String) (n : NodeHealth) (outcomes : List Bool) :
    NodeHealth × List Callback :=
  outcomes.foldl (fun r success =>
    ((m.record nodeId r.1 success).1, r.2 ++ (m.record nodeId r.1 success).2.toList)) (n, [])

theorem follow_concat (m : HeartbeatMonitor) (nodeId : String) (n : NodeHealth)
    (outcomes : List Bool) (success : Bool) :
    follow m nodeId n (outcomes ++ [success]) =
      ((m.record nodeId (follow m nodeId n outcomes).1 success).1,
        (follow m nodeId n outcomes).2 ++
          (m.record nodeId (follow m nodeId n outcomes).1 success).2.toList) := by
  rw [follow, List.foldl_append]
  rfl

theorem follow_recorded (m : HeartbeatMonitor) (nodeId : String) (n : NodeHealth)
    (outcomes : List Bool) (success : Bool) :
    ∃ cb, Recorded m nodeId (follow m nodeId n outcomes).1 success
      (follow m nodeId n (outcomes ++ [success])).1 cb := by
  rw [follow_concat]
  exact ⟨_, recorded rfl⟩

theorem record_congr {m m' : HeartbeatMonitor} (hf : m'.failureThreshold = m.failureThreshold)
    (hr : m'.recoveryThreshold = m.recoveryThreshold) (nodeId : String) (n : NodeHealth)
    (success : Bool) : m'.record nodeId n success = m.record nodeId n success := by
  unfold record
  rw [hf, hr]

/-- What a monitor does to a node that is not registered again depends on the outcomes of
that node's checks only. -/
theorem run_follow {m : HeartbeatMonitor} {nodeId : String} {n : NodeHealth}
    (hn : m.nodes.get? nodeId = some n) {events : List MonitorEvent}
    (once : ∀ address, MonitorEvent.register nodeId address ∉ events) :
    (m.run events).1.nodes.get? nodeId = some (follow m nodeId n (outcomes nodeId events)).1 ∧
      (m.run events).2.filter (·.nodeId = nodeId) =
        (follow m nodeId n (outcomes nodeId events)).2 ∧
      (m.run events).1.failureThreshold = m.failureThreshold ∧
      (m.run events).1.recoveryThreshold = m.recoveryThreshold := by
  induction events using List.reverseRecOn with
  | nil => exact ⟨hn, rfl, rfl, rfl⟩
  | append_singleton events e ih =>
    obtain ⟨hget, hcbs, hf, hr⟩ := ih fun address h => once address (List.mem_append_left _ h)
    cases e with
    | register k address =>
      have hk : nodeId ≠ k := by
        rintro rfl
        exact once address (List.mem_append_right _ (List.mem_singleton_self _))
      rw [run_concat_register, outcomes_concat_register, if_neg (Ne.symm hk)]
      exact ⟨by rw [register, PyDict.get?_set, if_neg hk, hget], hcbs, hf, hr⟩
    | check k success =>
      rw [run_concat_check, outcomes_concat_check]
      rw [check_failureThreshold, check_recoveryThreshold, List.filter_append, hcbs]
      by_cases hk : nodeId = k
      · subst hk
        have hc : (m.run events).1.check nodeId success =
            ({ (m.run events).1 with
              nodes := (m.run events).1.nodes.set nodeId
                (m.record nodeId (follow m nodeId n (outcomes nodeId events)).1 success).1 },
              (m.record nodeId (follow m nodeId n (outcomes nodeId events)).1 success).2) := by
          rw [check, hget, ← record_congr hf hr]
        rw [hc, if_pos rfl, follow_concat]
        refine ⟨PyDict.get?_set_self .., congrArg (_ ++ ·) ?_, hf, hr⟩
        refine List.filter_eq_self.mpr fun cb hcb => decide_eq_true ?_
        have := check_callback_nodeId ((congrArg Prod.snd hc).trans (Option.mem_toList.mp hcb))
        rcases this with rfl | rfl <;> rfl
      · rw [if_neg (Ne.symm hk)]
        refine ⟨by rw [check_get?_of_ne _ success hk, hget], ?_, hf, hr⟩
        rw [List.filter_eq_nil_iff.mpr, List.append_nil]
        intro cb hcb
        rcases check_callback_nodeId (Option.mem_toList.mp hcb) with rfl | rfl
        · exact fun h => hk (of_decide_eq_true h).symm
        · exact fun h => hk (of_decide_eq_true h).symm

/-- The callbacks so far alternate, up first, and their number tells whether the node is up. -/
structure Mirrors (nodeId : String) (r : NodeHealth × List Callback) : Prop where
  alternate : ∀ i cb, r.2[i]? = some cb →
    cb = if i % 2 = 0 then .onNodeUp nodeId else .onNodeDown nodeId
  status : r.1.status = .healthy ↔ r.2.length % 2 = 1

theorem Mirrors.concat {nodeId : String} {n n' : NodeHealth} {cbs : List Callback} {cb : Callback}
    (h : Mirrors nodeId (n, cbs))
    (hcb : cb = if cbs.length % 2 = 0 then .onNodeUp nodeId else .onNodeDown nodeId)
    (hs : n'.status = .healthy ↔ n.status ≠ .healthy) : Mirrors nodeId (n', cbs ++ [cb]) := by
  have hstat := h.status
  refine ⟨fun i c hi => ?_, ?_⟩
  · rcases Nat.lt_trichotomy i cbs.length with hlt | rfl | hgt
    · rw [List.getElem?_append_left hlt] at hi
      exact h.alternate i c hi
    · rw [List.getElem?_concat_length] at hi
      exact (Option.some.inj hi).symm.trans hcb
    · rw [List.getElem?_eq_none_iff.mpr (by simp; omega)] at hi
      cases hi
  · rw [hs, ne_eq, hstat, List.length_append, List.length_singleton]
    dsimp only
    omega

theorem Mirrors.record {m : HeartbeatMonitor} {nodeId : String} {n n' : NodeHealth}
    {cbs : List Callback} {success : Bool} {cb : Option Callback} (h : Mirrors nodeId (n, cbs))
    (hr : Recorded m nodeId n success n' cb) : Mirrors nodeId (n', cbs ++ cb.toList) := by
  have keep : (n'.status = .healthy ↔ n.status = .healthy) → Mirrors nodeId (n', cbs ++ []) := by
    intro hs
    rw [List.append_nil]
    exact ⟨h.alternate, hs.trans h.status⟩
  have hstat := h.status
  cases hr with
  | stillUp hs hs' _ => exact keep (iff_of_true hs' hs)
  | recovering hs hs' _ _ => exact keep (by rw [hs'])
  | up hs hs' _ _ =>
    have heven : cbs.length % 2 = 0 := by have := mt hstat.mpr hs; dsimp only at this; omega
    exact h.concat (by rw [if_pos heven]) (iff_of_true hs' hs)
  | stillDown hs hs' _ => exact keep (by rw [hs'])
  | failing hs hs' _ _ => exact keep (iff_of_true hs' hs)
  | down hs hs' _ _ =>
    have hodd : ¬cbs.length % 2 = 0 := by have := hstat.mp hs; dsimp only at this; omega
    exact h.concat (by rw [if_neg hodd]) (by simp [hs, hs'])

theorem mirrors_follow (m : HeartbeatMonitor) (nodeId address : String) (outcomes : List Bool) :
    Mirrors nodeId (follow m nodeId ⟨address, .unknown, 0, 0, 0⟩ outcomes) := by
  induction outcomes using List.reverseRecOn with
  | nil => exact ⟨fun i cb h => by simp [follow] at h, by simp [follow]⟩
  | append_singleton outcomes success ih =>
    rw [follow_concat]
    exact ih.record (recorded rfl)

theorem Mirrors.last {nodeId : String} {r : NodeHealth × List Callback} (h : Mirrors nodeId r) :
    r.1.status = .healthy ↔ r.2.getLast? = some (.onNodeUp nodeId) := by
  rw [h.status, List.getLast?_eq_getElem?]
  constructor
  · intro hodd
    have hlt : r.2.length - 1 < r.2.length := by omega
    have hlast := List.getElem?_eq_getElem hlt
    rw [hlast, h.alternate _ _ hlast, if_pos (by omega)]
  · intro hlast
    have hlt := (List.getElem?_eq_some_iff.mp hlast).1
    have hcb := h.alternate _ _ hlast
    split_ifs at hcb with heven
    omega

/-- Each success in a row counts, until the node is up. -/
theorem follow_successes (m : HeartbeatMonitor) (nodeId : String) (n : NodeHealth) (k : ℕ) :
    let n' := (follow m nodeId n (List.replicate k true)).1
    n'.status = .healthy ∨ (n'.status ≠ .healthy ∧
      (0 < k → (k : ℤ) ≤ n'.streak ∧ n'.streak < m.recoveryThreshold)) := by
  induction k with
  | zero => exact (em _).imp_right fun h => ⟨h, fun h => absurd h (lt_irrefl 0)⟩
  | succ k ih =>
    intro n'
    obtain ⟨cb, hr⟩ := follow_recorded m nodeId n (List.replicate k true) true
    rw [← List.replicate_succ'] at hr
    cases hr with
    | stillUp hs hs' _ => exact .inl hs'
    | recovering hs hs' hkeep hlt =>
      refine .inr ⟨hs' ▸ hs, fun _ => ⟨?_, hlt⟩⟩
      rcases ih with h | ⟨-, h⟩
      · exact absurd h hs
      · rw [hkeep]
        split_ifs <;> omega
    | up hs hs' _ _ => exact .inl hs'

/-- Each failure in a row counts, until the node is down. -/
theorem follow_failures (m : HeartbeatMonitor) (nodeId : String) {n : NodeHealth}
    (hup : n.status = .healthy) (k : ℕ) :
    let n' := (follow m nodeId n (List.replicate k false)).1
    n'.status = .unhealthy ∨ (n'.status = .healthy ∧
      (0 < k → n'.streak ≤ -k ∧ |n'.streak| < m.failureThreshold)) := by
  induction k with
  | zero => exact .inr ⟨hup, fun h => absurd h (lt_irrefl 0)⟩
  | succ k ih =>
    intro n'
    obtain ⟨cb, hr⟩ := follow_recorded m nodeId n (List.replicate k false) false
    rw [← List.replicate_succ'] at hr
    cases hr with
    | stillDown hs hs' _ => exact .inl (hs'.trans (ih.resolve_right fun h => hs h.1))
    | failing hs hs' hkeep hlt =>
      refine .inr ⟨hs', fun _ => ⟨?_, hlt⟩⟩
      rcases ih with h | ⟨-, h⟩
      · rw [hs] at h
        cases h
      · rw [hkeep]
        split_ifs <;> omega
    | down hs hs' _ _ => exact .inl hs'

theorem isHealthy_of_get? {m : HeartbeatMonitor} {nodeId : String} {n : NodeHealth}
    (hn : m.nodes.get? nodeId = some n) : m.isHealthy nodeId = true ↔ n.status = .healthy := by
  rw [isHealthy, hn, decide_eq_true_iff]

/-- The callbacks of a node alternate and mirror its status, and neither threshold of checks
in a row is missed. -/
theorem callbacks_mirror {m : HeartbeatMonitor} (hf : 1 ≤ m.failureThreshold)
    (hr : 1 ≤ m.recoveryThreshold) (nodeId address : String) {events : List MonitorEvent}
    (once : ∀ a, MonitorEvent.register nodeId a ∉ events) :
    let r := (m.register nodeId address).run events
    let cbs := r.2.filter (·.nodeId = nodeId)
    (∀ i cb, cbs[i]? = some cb →
      cb = if i % 2 = 0 then .onNodeUp nodeId else .onNodeDown nodeId) ∧
    (r.1.isHealthy nodeId = true ↔ cbs.getLast? = some (.onNodeUp nodeId)) ∧
    ∀ more, (∀ a, MonitorEvent.register nodeId a ∉ more) →
      (r.1.isHealthy nodeId = false →
        outcomes nodeId more = List.replicate m.recoveryThreshold.toNat true →
        (r.1.run more).1.isHealthy nodeId = true) ∧
      (r.1.isHealthy nodeId = true →
        outcomes nodeId more = List.replicate m.failureThreshold.toNat false →
        ∃ n, (r.1.run more).1.nodes.get? nodeId = some n ∧ n.status = .unhealthy) := by
  intro r cbs
  have hreg : (m.register nodeId address).nodes.get? nodeId = some ⟨address, .unknown, 0, 0, 0⟩ :=
    PyDict.get?_set_self ..
  obtain ⟨hget, hcbs, hf', hr'⟩ := run_follow hreg once
  have hmirror := mirrors_follow (m.register nodeId address) nodeId address (outcomes nodeId events)
  refine ⟨?_, ?_, fun more hmore => ⟨fun _ hall => ?_, fun hup hall => ?_⟩⟩
  · simp only [cbs, r, hcbs]
    exact hmirror.alternate
  · simp only [cbs, r, hcbs, isHealthy_of_get? hget]
    exact hmirror.last
  · obtain ⟨hget', -⟩ := run_follow hget hmore
    rw [isHealthy_of_get? hget', hall]
    refine (follow_successes r.1 nodeId _ _).resolve_right fun h => ?_
    obtain ⟨hle, hlt⟩ := h.2 (by omega)
    rw [hr'] at hlt
    change _ < m.recoveryThreshold at hlt
    omega
  · obtain ⟨hget', -⟩ := run_follow hget hmore
    refine ⟨_, hget', ?_⟩
    rw [hall]
    refine (follow_failures r.1 nodeId ((isHealthy_of_get? hget).mp hup) _).resolve_right
      fun h => ?_
    obtain ⟨hle, hlt⟩ := h.2 (by omega)
    rw [hf'] at hlt
    change _ < m.failureThreshold at hlt
    have := (abs_lt.mp hlt).1
    omega

/-- A worker comes up, goes down and comes up again. -/
def flapping : List MonitorEvent :=
  [true, true, false, false, false, true, true].map (.check "worker-a")

/-- Three more failures take it down. -/
theorem callbacks_mirror_flapping :
    let r := (register {} "worker-a" "http://127.0.0.1:8001").run flapping
    r.2 = [.onNodeUp "worker-a", .onNodeDown "worker-a", .onNodeUp "worker-a"] ∧
      ∃ n, (r.1.run (List.replicate 3 (.check "worker-a" false))).1.nodes.get? "worker-a" = some n ∧
        n.status = .unhealthy := by
  have once : ∀ a, MonitorEvent.register "worker-a" a ∉ flapping := by simp [flapping]
  have hmirror := callbacks_mirror (m := {}) (by decide) (by decide) "worker-a"
    "http://127.0.0.1:8001" once
  exact ⟨rfl, (hmirror.2.2 _ (by simp)).2 rfl rfl⟩

end HeartbeatMonitor
end InferenceCluster
