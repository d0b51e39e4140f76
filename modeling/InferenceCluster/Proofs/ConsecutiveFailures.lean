import InferenceCluster.Sanity.Heartbeat

/-! When a node is declared down. One streak counter serves both directions, and a
success on a healthy node adds one to it even when it is negative: after `f` failures it
takes `f` successes, not one, to forget them. -/

namespace InferenceCluster
namespace HeartbeatMonitor

/-- A success finds the node healthy with two or more failures on the counter. -/
def ForgetsSuccess (m : HeartbeatMonitor) : MonitorEvent → Prop
  | .register _ _ => False
  | .check nodeId success => success = true ∧
      ∃ n, m.nodes.get? nodeId = some n ∧ n.status = .healthy ∧ n.streak ≤ -2

/-- The check moves the node from healthy to unhealthy, or spawns `on_node_down`. -/
def GoesDown (m : HeartbeatMonitor) (nodeId : String) (success : Bool) : Prop :=
  ((∃ n, m.nodes.get? nodeId = some n ∧ n.status = .healthy) ∧
    ∃ n', (m.check nodeId success).1.nodes.get? nodeId = some n' ∧ n'.status = .unhealthy) ∨
  (m.check nodeId success).2 = some (.onNodeDown nodeId)

/-- A node goes down on a failure that brings the counter of a healthy node to the
threshold. -/
theorem GoesDown.elim {m : HeartbeatMonitor} {nodeId : String} {success : Bool}
    (h : m.GoesDown nodeId success) :
    success = false ∧ ∃ n, m.nodes.get? nodeId = some n ∧ n.status = .healthy ∧
      m.failureThreshold ≤ |if 0 ≤ n.streak then -1 else n.streak - 1| := by
  cases hn : m.nodes.get? nodeId with
  | none =>
    unfold GoesDown at h
    rw [check_of_get?_none hn] at h
    rcases h with ⟨⟨n, hn', -⟩, -⟩ | h
    · rw [hn] at hn'
      cases hn'
    · cases h
  | some n =>
    obtain ⟨n', cb, hc, hr⟩ := check_of_get? hn success
    unfold GoesDown at h
    rw [hc, hn] at h
    simp only [PyDict.get?_set_self, Option.some.injEq, exists_eq_left'] at h
    cases hr with
    | stillUp hs hs' hk => simp [hs'] at h
    | recovering hs hs' hk hlt => simp [hs] at h
    | up hs hs' hk hle => simp [hs] at h
    | stillDown hs hs' hk => simp [hs] at h
    | failing hs hs' hk hlt => simp [hs'] at h
    | down hs hs' hk hle => exact ⟨rfl, n, rfl, hs, hk ▸ hle⟩

/-- A negative counter of a healthy node counts failures in a row, the last ones. -/
def CountsFailures (events : List MonitorEvent) (m : HeartbeatMonitor) : Prop :=
  ∀ nodeId n, m.nodes.get? nodeId = some n → n.status = .healthy → n.streak < 0 →
    List.replicate n.streak.natAbs false <:+ outcomes nodeId events

/-- One more failure of a healthy node, whatever the counter was. -/
theorem CountsFailures.failure {events : List MonitorEvent} {m : HeartbeatMonitor}
    (h : CountsFailures events m) {nodeId : String} {n : NodeHealth}
    (hn : m.nodes.get? nodeId = some n) (hs : n.status = .healthy) :
    List.replicate (if 0 ≤ n.streak then -1 else n.streak - 1 : ℤ).natAbs false <:+
      outcomes nodeId events ++ [false] := by
  split_ifs with h0
  · exact replicate_suffix_concat (List.nil_suffix)
  · have habs : (n.streak - 1).natAbs = n.streak.natAbs + 1 := by omega
    rw [habs]
    exact replicate_suffix_concat (h nodeId n hn hs (not_le.mp h0))

theorem CountsFailures.step {events : List MonitorEvent} {m m' : HeartbeatMonitor}
    {e : MonitorEvent} (h : CountsFailures events m) (hok : ¬m.ForgetsSuccess e)
    (hstep : m.step e = some m') : CountsFailures (events ++ [e]) m' := by
  refine entries_step (P := fun outcomes n => n.status = .healthy → n.streak < 0 →
    List.replicate n.streak.natAbs false <:+ outcomes) events h (fun _ hup => by cases hup) ?_ hstep
  intro k n success n' cb he hn hr hup hneg
  cases hr with
  | stillUp hs hs' hkeep =>
    -- the counter stays negative only where a success is forgotten
    subst he
    exact absurd ⟨rfl, n, hn, hs, by omega⟩ hok
  | recovering hs hs' hkeep hlt => exact absurd (hs' ▸ hup) hs
  | up hs hs' hkeep hle =>
    rw [hkeep] at hneg
    split_ifs at hneg <;> omega
  | stillDown hs hs' hkeep => exact absurd (hs' ▸ hup) hs
  | failing hs hs' hkeep hlt =>
    rw [hkeep]
    exact h.failure hn hs
  | down hs hs' hkeep hle => exact absurd (hs'.symm.trans hup) (by decide)

/-- In a run in which no success is forgotten, a node goes down only after
`failure_threshold` failures in a row, the last check included. -/
theorem goesDown_consecutive {failureThreshold recoveryThreshold : ℤ} {events : List MonitorEvent}
    {m : HeartbeatMonitor} (h : (machine failureThreshold recoveryThreshold).Run events m)
    (hok : (machine failureThreshold recoveryThreshold).Meets (fun m e => ¬m.ForgetsSuccess e) events)
    {nodeId : String} {success : Bool} (hd : m.GoesDown nodeId success) :
    List.replicate failureThreshold.toNat false <:+
      outcomes nodeId (events ++ [.check nodeId success]) := by
  have hc : CountsFailures events m :=
    Machine.Run.invariant_of_meets (I := CountsFailures) (fun k n hk => by simp [machine] at hk)
      (fun _ _ _ _ _ hI hok hs => hI.step hok hs) h hok
  obtain ⟨rfl, n, hn, hs, hle⟩ := hd.elim
  rw [(run_thresholds ⟨events, h⟩).1] at hle
  rw [outcomes_concat_check, if_pos rfl]
  refine List.IsSuffix.trans ?_ (hc.failure hn hs)
  rw [Int.abs_eq_natAbs] at hle
  rw [← Nat.sub_add_cancel (Int.toNat_le.mpr hle), List.replicate_add]
  exact List.suffix_append _ _

/-- A worker comes up and fails twice in a row. -/
theorem goesDown_consecutive_twice :
    List.replicate 2 false <:+ outcomes "worker-a" [.register "worker-a" "http://127.0.0.1:8001",
      .check "worker-a" true, .check "worker-a" false, .check "worker-a" false] := by
  have h₁ : (machine 2 1).Run [.register "worker-a" "http://127.0.0.1:8001"] _ :=
    Machine.Run.nil.snoc rfl
  have h₂ := h₁.snoc (i := .check "worker-a" true) rfl
  have h₃ := h₂.snoc (i := .check "worker-a" false) rfl
  have m₀ : (machine 2 1).Meets (fun m e => ¬m.ForgetsSuccess e) [] := Machine.Meets.nil
  have m₁ : (machine 2 1).Meets _ [.register "worker-a" "http://127.0.0.1:8001"] :=
    m₀.snoc Machine.Run.nil (by simp [ForgetsSuccess])
  have m₂ := m₁.snoc h₁ (i := .check "worker-a" true) (by
    rintro ⟨-, n, hn, hs, -⟩
    cases hn
    cases hs)
  have m₃ := m₂.snoc h₂ (i := .check "worker-a" false) (by simp [ForgetsSuccess])
  exact goesDown_consecutive h₃ m₃ (.inr rfl)

/-- Two failures, a success, two failures: with a threshold of three the node goes down. -/
theorem goesDown_after_success :
    let events : List MonitorEvent := [.register "worker-a" "http://127.0.0.1:8001",
      .check "worker-a" true, .check "worker-a" true, .check "worker-a" false,
      .check "worker-a" false, .check "worker-a" true, .check "worker-a" false]
    ∃ m, (machine 3 2).Run events m ∧ m.GoesDown "worker-a" false ∧
      ¬List.replicate 3 false <:+ outcomes "worker-a" (events ++ [.check "worker-a" false]) := by
  intro events
  exact ⟨_, (Machine.run_iff_exec _).mpr rfl, .inr rfl, by decide⟩

end HeartbeatMonitor
end InferenceCluster
