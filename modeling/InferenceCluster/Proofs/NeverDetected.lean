import InferenceCluster.Sanity.Heartbeat

/-! Nodes that never come up. The counter of a node that is not healthy counts its failures,
but only a healthy node is compared with the failure threshold: without a first success a
node keeps the status it was registered with, and no callback takes it out of the ring. -/

namespace InferenceCluster
namespace HeartbeatMonitor

/-- After a registration and these events: if the last `failure_threshold` checks of the
node failed, then it is unhealthy and `on_node_down` has been spawned for it. -/
def Detects (m : HeartbeatMonitor) (nodeId address : String) (events : List MonitorEvent) : Prop :=
  let r := (m.register nodeId address).run events
  List.replicate m.failureThreshold.toNat false <:+ outcomes nodeId events →
    (∃ n, r.1.nodes.get? nodeId = some n ∧ n.status = .unhealthy) ∧ .onNodeDown nodeId ∈ r.2

/-- The node is not healthy yet and has not been declared down. -/
structure Unnoticed (nodeId : String) (r : HeartbeatMonitor × List Callback) : Prop where
  status : ∃ n, r.1.nodes.get? nodeId = some n ∧ n.status = .unknown
  spawned : .onNodeDown nodeId ∉ r.2

/-- One event, unless the node comes up at it. -/
theorem Unnoticed.step {m : HeartbeatMonitor} {nodeId : String} {events : List MonitorEvent}
    (h : Unnoticed nodeId (m.run events)) (e : MonitorEvent)
    (hup : (m.run (events ++ [e])).1.isHealthy nodeId = false) :
    Unnoticed nodeId (m.run (events ++ [e])) := by
  obtain ⟨⟨n, hn, hs⟩, hcbs⟩ := h
  cases e with
  | register k address =>
    rw [run_concat_register]
    refine ⟨?_, hcbs⟩
    simp only [register, PyDict.get?_set]
    split_ifs
    · exact ⟨_, rfl, rfl⟩
    · exact ⟨n, hn, hs⟩
  | check k success =>
    rw [run_concat_check] at hup ⊢
    by_cases hk : nodeId = k
    · subst hk
      obtain ⟨n', cb, hc, hr⟩ := check_of_get? hn success
      rw [hc] at hup ⊢
      simp only [isHealthy, PyDict.get?_set_self] at hup
      have hlow : n.status ≠ .healthy := by simp [hs]
      -- from below, a check counts or brings the node up
      cases hr with
      | stillUp hs' _ _ => exact absurd hs' hlow
      | recovering _ hs' _ _ => exact ⟨⟨n', PyDict.get?_set_self .., hs'.trans hs⟩, by simpa using hcbs⟩
      | up _ hs' _ _ => simp [hs'] at hup
      | stillDown _ hs' _ => exact ⟨⟨n', PyDict.get?_set_self .., hs'.trans hs⟩, by simpa using hcbs⟩
      | failing hs' _ _ _ => exact absurd hs' hlow
      | down hs' _ _ _ => exact absurd hs' hlow
    · refine ⟨⟨n, (check_get?_of_ne _ success hk).trans hn, hs⟩, fun hm => ?_⟩
      rcases List.mem_append.mp hm with hm | hm
      · exact hcbs hm
      · rcases check_callback_nodeId (Option.mem_toList.mp hm) with he | he
        · cases he
        · cases he
          exact hk rfl

/-- Whatever the thresholds, a node that fails from its registration on is never declared
down. -/
theorem never_detected {m : HeartbeatMonitor} {nodeId address : String}
    {events : List MonitorEvent}
    (hup : ∀ js, js <+: events → ((m.register nodeId address).run js).1.isHealthy nodeId = false)
    (hfail : List.replicate m.failureThreshold.toNat false <:+ outcomes nodeId events) :
    ¬m.Detects nodeId address events := by
  have hun : Unnoticed nodeId ((m.register nodeId address).run events) := by
    clear hfail
    induction events using List.reverseRecOn with
    | nil => exact ⟨⟨_, PyDict.get?_set_self .., rfl⟩, List.not_mem_nil⟩
    | append_singleton events e ih =>
      exact (ih fun js hjs => hup js (hjs.trans (List.prefix_append _ _))).step e
        (hup _ List.prefix_rfl)
  intro h
  exact hun.spawned (h hfail).2

/-- A worker that is never started fails its first three checks. -/
def neverStarted : List MonitorEvent := List.replicate 3 (.check "worker-b" false)

theorem never_detected_neverStarted :
    ¬Detects {} "worker-b" "http://127.0.0.1:8002" neverStarted := by
  have hup : ∀ js ∈ neverStarted.inits,
      ((register {} "worker-b" "http://127.0.0.1:8002").run js).1.isHealthy "worker-b" = false := by
    decide
  exact never_detected (fun js hjs => hup js ((List.mem_inits _ _).mpr hjs)) (by decide)

/-- It was never healthy and its last three checks failed, but it is unknown, not unhealthy,
and no callback has been spawned. -/
theorem neverStarted_unknown :
    let after := (register {} "worker-b" "http://127.0.0.1:8002").run
    (∀ js ∈ neverStarted.inits, (after js).1.isHealthy "worker-b" = false) ∧
      List.replicate 3 false <:+ outcomes "worker-b" neverStarted ∧
      ((after neverStarted).1.nodes.get? "worker-b").map NodeHealth.status = some .unknown ∧
      (after neverStarted).2 = [] := by
  decide

end HeartbeatMonitor
end InferenceCluster
