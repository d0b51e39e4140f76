import InferenceCluster.Spec.Heartbeat
import Mathlib.Data.List.Infix
import Mathlib.Tactic

/-! What one check can do to the entry of its node, said once for all proofs. -/

namespace InferenceCluster

/-- The six ways in which the result of a check is recorded. -/
inductive Recorded (m : HeartbeatMonitor) (nodeId : String) (n : NodeHealth) :
    Bool → NodeHealth → Option Callback → Prop
  | stillUp {n' : NodeHealth} : n.status = .healthy → n'.status = .healthy →
      n'.streak = n.streak + 1 → Recorded m nodeId n true n' none
  | recovering {n' : NodeHealth} : n.status ≠ .healthy → n'.status = n.status →
      n'.streak = (if n.streak ≤ 0 then 1 else n.streak + 1) → n'.streak < m.recoveryThreshold →
      Recorded m nodeId n true n' none
  | up {n' : NodeHealth} : n.status ≠ .healthy → n'.status = .healthy →
      n'.streak = (if n.streak ≤ 0 then 1 else n.streak + 1) → m.recoveryThreshold ≤ n'.streak →
      Recorded m nodeId n true n' (some (.onNodeUp nodeId))
  | stillDown {n' : NodeHealth} : n.status ≠ .healthy → n'.status = n.status →
      n'.streak = n.streak - 1 → Recorded m nodeId n false n' none
  | failing {n' : NodeHealth} : n.status = .healthy → n'.status = .healthy →
      n'.streak = (if 0 ≤ n.streak then -1 else n.streak - 1) → |n'.streak| < m.failureThreshold →
      Recorded m nodeId n false n' none
  | down {n' : NodeHealth} : n.status = .healthy → n'.status = .unhealthy →
      n'.streak = (if 0 ≤ n.streak then -1 else n.streak - 1) → m.failureThreshold ≤ |n'.streak| →
      Recorded m nodeId n false n' (some (.onNodeDown nodeId))

namespace HeartbeatMonitor

theorem recorded {m : HeartbeatMonitor} {nodeId : String} {n n' : NodeHealth} {success : Bool}
    {cb : Option Callback} (h : m.record nodeId n success = (n', cb)) :
    Recorded m nodeId n success n' cb := by
  unfold record at h
  by_cases hs : n.status = .healthy
  · cases success with
    | true =>
      simp only [hs, if_true] at h
      obtain ⟨rfl, rfl⟩ := Prod.mk.inj h
      exact .stillUp hs rfl rfl
    | false =>
      by_cases hf : m.failureThreshold ≤ |if 0 ≤ n.streak then -1 else n.streak - 1|
      · simp only [hs, hf, Bool.false_eq_true, if_false, if_true, ne_eq, not_true_eq_false] at h
        obtain ⟨rfl, rfl⟩ := Prod.mk.inj h
        exact .down hs rfl rfl hf
      · simp only [hs, hf, Bool.false_eq_true, if_false, ne_eq, not_true_eq_false] at h
        obtain ⟨rfl, rfl⟩ := Prod.mk.inj h
        exact .failing hs rfl rfl (not_le.mp hf)
  · cases success with
    | true =>
      by_cases hr : m.recoveryThreshold ≤ if n.streak ≤ 0 then 1 else n.streak + 1
      · simp only [hs, hr, if_true, if_false] at h
        obtain ⟨rfl, rfl⟩ := Prod.mk.inj h
        exact .up hs rfl rfl hr
      · simp only [hs, hr, if_true, if_false] at h
        obtain ⟨rfl, rfl⟩ := Prod.mk.inj h
        exact .recovering hs rfl rfl (not_le.mp hr)
    | false =>
      simp only [hs, Bool.false_eq_true, if_false, if_true, ne_eq, not_false_eq_true] at h
      obtain ⟨rfl, rfl⟩ := Prod.mk.inj h
      exact .stillDown hs rfl rfl

/-- A check of a registered node replaces its entry by the recorded one. -/
theorem check_of_get? {m : HeartbeatMonitor} {nodeId : String} {n : NodeHealth}
    (hn : m.nodes.get? nodeId = some n) (success : Bool) :
    ∃ n' cb, m.check nodeId success = ({ m with nodes := m.nodes.set nodeId n' }, cb) ∧
      Recorded m nodeId n success n' cb := by
  refine ⟨(m.record nodeId n success).1, (m.record nodeId n success).2, ?_, recorded rfl⟩
  unfold check
  rw [hn]

theorem check_of_get?_none {m : HeartbeatMonitor} {nodeId : String}
    (hn : m.nodes.get? nodeId = none) (success : Bool) : m.check nodeId success = (m, none) := by
  unfold check
  rw [hn]

theorem check_get?_of_ne (m : HeartbeatMonitor) {nodeId k : String} (success : Bool)
    (hk : k ≠ nodeId) : (m.check nodeId success).1.nodes.get? k = m.nodes.get? k := by
  cases hn : m.nodes.get? nodeId with
  | none => rw [check_of_get?_none hn]
  | some n =>
    obtain ⟨n', cb, hc, -⟩ := check_of_get? hn success
    rw [hc, PyDict.get?_set, if_neg hk]

@[simp] theorem check_failureThreshold (m : HeartbeatMonitor) (nodeId : String) (success : Bool) :
    (m.check nodeId success).1.failureThreshold = m.failureThreshold := by
  unfold check
  split <;> rfl

@[simp] theorem check_recoveryThreshold (m : HeartbeatMonitor) (nodeId : String) (success : Bool) :
    (m.check nodeId success).1.recoveryThreshold = m.recoveryThreshold := by
  unfold check
  split <;> rfl

/-- The thresholds never change. -/
theorem run_thresholds {failureThreshold recoveryThreshold : ℤ} {m : HeartbeatMonitor}
    (h : (machine failureThreshold recoveryThreshold).Reachable m) :
    m.failureThreshold = failureThreshold ∧ m.recoveryThreshold = recoveryThreshold := by
  refine Machine.Reachable.invariant (I := fun m => m.failureThreshold = failureThreshold ∧
    m.recoveryThreshold = recoveryThreshold) ⟨rfl, rfl⟩ (fun s e s' hI hs => ?_) h
  cases e with
  | register nodeId address =>
    obtain rfl := Option.some.inj hs
    exact hI
  | check nodeId success =>
    obtain rfl := Option.some.inj hs
    rw [check_failureThreshold, check_recoveryThreshold]
    exact hI

/-! ### Runs with their callbacks -/

theorem run_concat_check (m : HeartbeatMonitor) (events : List MonitorEvent) (nodeId : String)
    (success : Bool) : m.run (events ++ [.check nodeId success]) =
      (((m.run events).1.check nodeId success).1,
        (m.run events).2 ++ ((m.run events).1.check nodeId success).2.toList) := by
  rw [run, List.foldl_append]
  rfl

theorem run_concat_register (m : HeartbeatMonitor) (events : List MonitorEvent)
    (nodeId address : String) : m.run (events ++ [.register nodeId address]) =
      ((m.run events).1.register nodeId address, (m.run events).2) := by
  rw [run, List.foldl_append]
  rfl

/-- A callback is about the node that was checked. -/
theorem check_callback_nodeId {m : HeartbeatMonitor} {nodeId : String} {success : Bool}
    {cb : Callback} (h : (m.check nodeId success).2 = some cb) :
    cb = .onNodeUp nodeId ∨ cb = .onNodeDown nodeId := by
  cases hn : m.nodes.get? nodeId with
  | none =>
    rw [check_of_get?_none hn] at h
    cases h
  | some n =>
    obtain ⟨n', cb', hc, hr⟩ := check_of_get? hn success
    rw [hc] at h
    cases hr <;> cases h
    · exact .inl rfl
    · exact .inr rfl

/-! ### Entries and outcomes -/

theorem outcomes_concat_check (nodeId : String) (events : List MonitorEvent) (k : String)
    (success : Bool) : outcomes nodeId (events ++ [.check k success]) =
      if k = nodeId then outcomes nodeId events ++ [success] else outcomes nodeId events := by
  simp only [outcomes, List.foldl_append, List.foldl_cons, List.foldl_nil]

theorem outcomes_concat_register (nodeId : String) (events : List MonitorEvent) (k address : String) :
    outcomes nodeId (events ++ [.register k address]) =
      if k = nodeId then [] else outcomes nodeId events := by
  simp only [outcomes, List.foldl_append, List.foldl_cons, List.foldl_nil]

/-- One event, for a property of every entry and the outcomes of its node: it has to hold
after a registration and to be kept by a recorded check. -/
theorem entries_step {P : List Bool → NodeHealth → Prop} (events : List MonitorEvent)
    {m m' : HeartbeatMonitor} {e : MonitorEvent}
    (h : ∀ nodeId n, m.nodes.get? nodeId = some n → P (outcomes nodeId events) n)
    (hreg : ∀ address, P [] ⟨address, .unknown, 0, 0, 0⟩)
    (hcheck : ∀ nodeId n success n' cb, e = .check nodeId success →
      m.nodes.get? nodeId = some n → Recorded m nodeId n success n' cb →
      P (outcomes nodeId events ++ [success]) n')
    (hstep : m.step e = some m') :
    ∀ nodeId n, m'.nodes.get? nodeId = some n → P (outcomes nodeId (events ++ [e])) n := by
  intro k n' hk
  cases e with
  | register nodeId address =>
    obtain rfl := Option.some.inj hstep
    rw [outcomes_concat_register]
    simp only [register, PyDict.get?_set] at hk
    split_ifs at hk with hkn
    · obtain rfl := Option.some.inj hk
      rw [if_pos hkn.symm]
      exact hreg address
    · rw [if_neg (Ne.symm hkn)]
      exact h k n' hk
  | check nodeId success =>
    obtain rfl := Option.some.inj hstep
    rw [outcomes_concat_check]
    by_cases hkn : k = nodeId
    · subst hkn
      cases hn : m.nodes.get? k with
      | none =>
        rw [check_of_get?_none hn, hn] at hk
        cases hk
      | some n =>
        obtain ⟨n₁, cb, hc, hr⟩ := check_of_get? hn success
        rw [hc, PyDict.get?_set_self] at hk
        obtain rfl := Option.some.inj hk
        rw [if_pos rfl]
        exact hcheck k n success n₁ cb rfl hn hr
    · rw [check_get?_of_ne m success hkn] at hk
      rw [if_neg (Ne.symm hkn)]
      exact h k n' hk

theorem replicate_suffix_concat {k : ℕ} {l : List Bool} {b : Bool}
    (h : List.replicate k b <:+ l) : List.replicate (k + 1) b <:+ l ++ [b] := by
  obtain ⟨t, rfl⟩ := h
  exact ⟨t, by rw [List.replicate_succ', List.append_assoc]⟩

end HeartbeatMonitor
end InferenceCluster
