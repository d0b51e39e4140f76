import InferenceCluster.Sanity.Heartbeat

/-! When a node is declared up. A failure of a node that is not healthy takes one off the
counter even when the counter holds successes: with a threshold of three or more, a node can
come up on successes that failures interrupt. -/

namespace InferenceCluster
namespace HeartbeatMonitor

/-- A failure finds the node not healthy with two or more successes on the counter. -/
def ForgetsFailure (m : HeartbeatMonitor) : MonitorEvent → Prop
  | .register _ _ => False
  | .check nodeId success => success = false ∧
      ∃ n, m.nodes.get? nodeId = some n ∧ n.status ≠ .healthy ∧ 2 ≤ n.streak

/-- The check sets the status to healthy, or spawns `on_node_up`. -/
def GoesUp (m : HeartbeatMonitor) (nodeId : String) (success : Bool) : Prop :=
  ((∃ n, m.nodes.get? nodeId = some n ∧ n.status ≠ .healthy) ∧
    ∃ n', (m.check nodeId success).1.nodes.get? nodeId = some n' ∧ n'.status = .healthy) ∨
  (m.check nodeId success).2 = some (.onNodeUp nodeId)

/-- A node comes up on a success that brings the counter to the threshold. -/
theorem GoesUp.elim {m : HeartbeatMonitor} {nodeId : String} {success : Bool}
    (h : m.GoesUp nodeId success) :
    success = true ∧ ∃ n, m.nodes.get? nodeId = some n ∧ n.status ≠ .healthy ∧
      m.recoveryThreshold ≤ if n.streak ≤ 0 then 1 else n.streak + 1 := by
  cases hn : m.nodes.get? nodeId with
  | none =>
    unfold GoesUp at h
    rw [check_of_get?_none hn] at h
    rcases h with ⟨⟨n, hn', -⟩, -⟩ | h
    · rw [hn] at hn'
      cases hn'
    · cases h
  | some n =>
    obtain ⟨n', cb, hc, hr⟩ := check_of_get? hn success
    unfold GoesUp at h
    rw [hc, hn] at h
    simp only [PyDict.get?_set_self, Option.some.injEq, exists_eq_left'] at h
    cases hr with
    | stillUp hs hs' hk => simp [hs] at h
    | recovering hs hs' hk hlt => simp [hs', hs] at h
    | up hs hs' hk hle => exact ⟨rfl, n, rfl, hs, hk ▸ hle⟩
    | stillDown hs hs' hk => simp [hs', hs] at h
    | failing hs hs' hk hlt => simp [hs] at h
    | down hs hs' hk hle => simp [hs] at h

/-- A positive counter of a node that is not healthy counts successes in a row, the last
ones. -/
def CountsSuccesses (events : List MonitorEvent) (m : HeartbeatMonitor) : Prop :=
  ∀ nodeId n, m.nodes.get? nodeId = some n → n.status ≠ .healthy → 0 < n.streak →
    List.replicate n.streak.natAbs true <:+ outcomes nodeId events

/-- One more success of a node that is not healthy, whatever the counter was. -/
theorem CountsSuccesses.success {events : List MonitorEvent} {m : HeartbeatMonitor}
    (h : CountsSuccesses events m) {nodeId : String} {n : NodeHealth}
    (hn : m.nodes.get? nodeId = some n) (hs : n.status ≠ .healthy) :
    List.replicate (if n.streak ≤ 0 then 1 else n.streak + 1 : ℤ).natAbs true <:+
      outcomes nodeId events ++ [true] := by
  split_ifs with h0
  · exact replicate_suffix_concat (List.nil_suffix)
  · have habs : (n.streak + 1).natAbs = n.streak.natAbs + 1 := by omega
    rw [habs]
    exact replicate_suffix_concat (h nodeId n hn hs (not_le.mp h0))

theorem CountsSuccesses.step {events : List MonitorEvent} {m m' : HeartbeatMonitor}
    {e : MonitorEvent} (h : CountsSuccesses events m) (hok : ¬m.ForgetsFailure e)
    (hstep : m.step e = some m') : CountsSuccesses (events ++ [e]) m' := by
  refine entries_step (P := fun outcomes n => n.status ≠ .healthy → 0 < n.streak →
    List.replicate n.streak.natAbs true <:+ outcomes) events h (fun _ _ hpos => by cases hpos) ?_ hstep
  intro k n success n' cb he hn hr hlow hpos
  cases hr with
  | stillUp hs hs' hkeep => exact absurd hs' hlow
  | recovering hs hs' hkeep hlt =>
    rw [hkeep]
    exact h.success hn hs
  | up hs hs' hkeep hle => exact absurd hs' hlow
  | stillDown hs hs' hkeep =>
    -- the counter stays positive only where a failure is forgotten
    subst he
    exact absurd ⟨rfl, n, hn, hs, by omega⟩ hok
  | failing hs hs' hkeep hlt => exact absurd hs' hlow
  | down hs hs' hkeep hle =>
    rw [hkeep] at hpos
    split_ifs at hpos <;> omega

/-- In a run in which no failure is forgotten, a node comes up only after
`recovery_threshold` successes in a row, the last check included. -/
theorem goesUp_consecutive {failureThreshold recoveryThreshold : ℤ} {events : List MonitorEvent}
    {m : HeartbeatMonitor} (h : (machine failureThreshold recoveryThreshold).Run events m)
    (hok : (machine failureThreshold recoveryThreshold).Meets (fun m e => ¬m.ForgetsFailure e) events)
    {nodeId : String} {success : Bool} (hu : m.GoesUp nodeId success) :
    List.replicate recoveryThreshold.toNat true <:+
      outcomes nodeId (events ++ [.check nodeId success]) := by
  have hc : CountsSuccesses events m :=
    Machine.Run.invariant_of_meets (I := CountsSuccesses) (fun k n hk => by simp [machine] at hk)
      (fun _ _ _ _ _ hI hok hs => hI.step hok hs) h hok
  obtain ⟨rfl, n, hn, hs, hle⟩ := hu.elim
  rw [(run_thresholds ⟨events, h⟩).2] at hle
  rw [outcomes_concat_check, if_pos rfl]
  refine List.IsSuffix.trans ?_ (hc.success hn hs)
  have hle' : recoveryThreshold.toNat ≤ (if n.streak ≤ 0 then 1 else n.streak + 1 : ℤ).natAbs := by
    omega
  rw [← Nat.sub_add_cancel hle', List.replicate_add]
  exact List.suffix_append _ _

/-- Two successes in a row after a failure that found one success on the counter. -/
theorem goesUp_consecutive_twice :
    List.replicate 2 true <:+ outcomes "worker-b" [.register "worker-b" "http://127.0.0.1:8002",
      .check "worker-b" true, .check "worker-b" false, .check "worker-b" true,
      .check "worker-b" true] := by
  have h₁ : (machine 3 2).Run [.register "worker-b" "http://127.0.0.1:8002"] _ :=
    Machine.Run.nil.snoc rfl
  have h₂ := h₁.snoc (i := .check "worker-b" true) rfl
  have h₃ := h₂.snoc (i := .check "worker-b" false) rfl
  have h₄ := h₃.snoc (i := .check "worker-b" true) rfl
  have m₀ : (machine 3 2).Meets (fun m e => ¬m.ForgetsFailure e) [] := Machine.Meets.nil
  have m₁ : (machine 3 2).Meets _ [.register "worker-b" "http://127.0.0.1:8002"] :=
    m₀.snoc Machine.Run.nil (by simp [ForgetsFailure])
  have m₂ := m₁.snoc h₁ (i := .check "worker-b" true) (by simp [ForgetsFailure])
  have m₃ := m₂.snoc h₂ (i := .check "worker-b" false) (by
    rintro ⟨-, n, hn, -, hle⟩
    cases hn
    exact absurd hle (by decide))
  have m₄ := m₃.snoc h₃ (i := .check "worker-b" true) (by simp [ForgetsFailure])
  exact goesUp_consecutive h₄ m₄ (.inr rfl)

/-- Two successes, a failure, two successes: with a threshold of three the node comes up. -/
theorem goesUp_after_failure :
    let events : List MonitorEvent := [.register "worker-b" "http://127.0.0.1:8002",
      .check "worker-b" true, .check "worker-b" true, .check "worker-b" false,
      .check "worker-b" true]
    ∃ m, (machine 3 3).Run events m ∧ m.GoesUp "worker-b" true ∧
      ¬List.replicate 3 true <:+ outcomes "worker-b" (events ++ [.check "worker-b" true]) := by
  intro events
  exact ⟨_, (Machine.run_iff_exec _).mpr rfl, .inr rfl, by decide⟩

/-- With a threshold of at most two no failure is forgotten: a node with two successes on the
counter is up. -/
theorem remembers_failures {failureThreshold recoveryThreshold : ℤ} (hr : recoveryThreshold ≤ 2)
    {events : List MonitorEvent} {m : HeartbeatMonitor}
    (h : (machine failureThreshold recoveryThreshold).Run events m) (e : MonitorEvent) :
    ¬m.ForgetsFailure e := by
  have hlow : ∀ nodeId n, m.nodes.get? nodeId = some n → n.status ≠ .healthy → n.streak < 2 := by
    induction h with
    | nil => intro nodeId n hn; simp [machine] at hn
    | @snoc events m e m' hr' hs ih =>
      refine entries_step (P := fun _ n => n.status ≠ .healthy → n.streak < 2) events ih
        (fun _ _ => (by decide : (0 : ℤ) < 2)) ?_ hs
      intro k n success n' cb he hn hrec hdown
      have hthr := (run_thresholds ⟨events, hr'⟩).2
      cases hrec with
      | stillUp hs hs' hkeep => exact absurd hs' hdown
      | recovering hs hs' hkeep hlt => omega
      | up hs hs' hkeep hle => exact absurd hs' hdown
      | stillDown hs hs' hkeep =>
        have := ih k n hn hs
        omega
      | failing hs hs' hkeep hlt => exact absurd hs' hdown
      | down hs hs' hkeep hle =>
        rw [hkeep]
        split_ifs <;> omega
  cases e with
  | register nodeId address => exact id
  | check nodeId success =>
    rintro ⟨-, n, hn, hs, hle⟩
    have := hlow nodeId n hn hs
    omega

end HeartbeatMonitor
end InferenceCluster
