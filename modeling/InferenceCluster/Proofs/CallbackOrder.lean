import InferenceCluster.Spec.CallbackThreads
import InferenceCluster.Proofs.RingFollowsHealth

/-! The order in which callbacks run. The newest callback of a node says what its status is;
the ring ends up wrong exactly when an older one that says the opposite runs after it. -/

namespace InferenceCluster

/-- The status of the node of a callback at the check that started its thread. -/
def Callback.announces : Callback → NodeStatus
  | .onNodeDown _ => .unhealthy
  | .onNodeUp _ => .healthy

theorem Callback.apply_self {cb : Callback} {k : String} (hk : cb.nodeId = k)
    (hb : isBaseline k = true) (member : Bool) :
    cb.apply k member = decide (cb.announces ≠ .unhealthy) := by
  subst hk
  cases cb with
  | onNodeDown nodeId => simp [Callback.apply, Callback.nodeId, Callback.announces]
  | onNodeUp nodeId =>
    have hb' : isBaseline nodeId = true := hb
    simp [Callback.apply, Callback.nodeId, Callback.announces, hb']

/-- Two callbacks of one node that say the same are equal. -/
theorem Callback.eq_of_announces {c cb : Callback} (hk : c.nodeId = cb.nodeId)
    (h : c.announces = cb.announces) : c = cb := by
  cases c <;> cases cb <;> simp_all [Callback.nodeId, Callback.announces]

/-- The newest pending callback of a node. -/
def newest (k : String) (pending : List Callback) : Option Callback :=
  pending.reverse.find? fun cb => cb.nodeId = k

theorem newest_append (k : String) (older newer : List Callback) :
    newest k (older ++ newer) = (newest k newer).or (newest k older) := by
  rw [newest, List.reverse_append, List.find?_append]
  rfl

theorem newest_singleton_self (cb : Callback) : newest cb.nodeId [cb] = some cb := by
  simp [newest]

theorem newest_eq_none {k : String} {pending : List Callback} :
    newest k pending = none ↔ ∀ cb ∈ pending, cb.nodeId ≠ k := by
  simp [newest]

theorem newest_eq_some {k : String} {pending : List Callback} {cb : Callback}
    (h : newest k pending = some cb) : cb ∈ pending ∧ cb.nodeId = k :=
  ⟨List.mem_reverse.mp (List.mem_of_find?_eq_some h), by simpa using List.find?_some h⟩

namespace CallbackThreads

variable {digest : String → ℕ}

/-- The ring agrees with the health of every node. -/
def RingAgrees (s : CallbackThreads) : Prop :=
  ∀ nodeId n, s.monitor.nodes.get? nodeId = some n →
    (n.status = .healthy → s.ring.nodes.contains nodeId = true) ∧
    (n.status = .unhealthy → s.ring.nodes.contains nodeId = false)

/-- The newest callback of a node runs while an older one that says the opposite is pending. -/
def Overtakes (s : CallbackThreads) : CallbackEvent → Prop
  | .check _ _ => False
  | .run i => ∃ cb, s.pending[i]? = some cb ∧
      (∀ c ∈ s.pending.drop (i + 1), c.nodeId ≠ cb.nodeId) ∧
      ∃ c ∈ s.pending.take i, c.nodeId = cb.nodeId ∧ c ≠ cb

/-- The status of a node is what its newest pending callback says; without one, the ring
agrees with it already. -/
structure Announced (s : CallbackThreads) : Prop where
  baseline : ∀ k n, s.monitor.nodes.get? k = some n → isBaseline k = true
  announced : ∀ k n, s.monitor.nodes.get? k = some n →
    (newest k s.pending).elim (s.ring.nodes.contains k = decide (n.status ≠ .unhealthy))
      fun cb => n.status = cb.announces
  pending : ∀ cb ∈ s.pending, s.monitor.nodes.contains cb.nodeId = true

theorem announced_init : (init digest).Announced :=
  ⟨fun _ _ hn => (RouterSystem.registered_init (K := ℤ) hn).1,
    fun k n hn => (RouterSystem.agrees_init (K := ℤ)).member k n hn,
    fun _ hcb => absurd hcb List.not_mem_nil⟩

theorem Announced.check {s : CallbackThreads} (h : s.Announced) (nodeId : String)
    (success : Bool) : Announced { s with
      monitor := (s.monitor.check nodeId success).1
      pending := s.pending ++ (s.monitor.check nodeId success).2.toList } := by
  cases hn : s.monitor.nodes.get? nodeId with
  | none =>
    rw [HeartbeatMonitor.check_of_get?_none hn]
    simpa using h
  | some n =>
    obtain ⟨n', cb, hc, hr⟩ := HeartbeatMonitor.check_of_get? hn success
    rw [hc]
    have hcb : ∀ c ∈ cb.toList, c.nodeId = nodeId := by
      intro c hm
      cases hr <;> simp at hm <;> rw [hm] <;> rfl
    refine ⟨fun k m hk => ?_, fun k m hk => ?_, fun c hm => ?_⟩
    · simp only [PyDict.get?_set] at hk
      split_ifs at hk with hkn
      · exact hkn ▸ h.baseline nodeId n hn
      · exact h.baseline k m hk
    · simp only [PyDict.get?_set] at hk
      rw [newest_append]
      split_ifs at hk with hkn
      · subst hkn
        obtain rfl := Option.some.inj hk
        have hown := h.announced k n hn
        cases hr with
        | up _ hs' _ _ =>
          have hnew : newest k [.onNodeUp k] = some (.onNodeUp k) := newest_singleton_self _
          simpa only [Option.toList_some, hnew, Option.some_or, Option.elim_some,
            Callback.announces] using hs'
        | down _ hs' _ _ =>
          have hnew : newest k [.onNodeDown k] = some (.onNodeDown k) := newest_singleton_self _
          simpa only [Option.toList_some, hnew, Option.some_or, Option.elim_some,
            Callback.announces] using hs'
        | stillUp hs hs' _ => rwa [hs, ← hs'] at hown
        | recovering _ hs' _ _ => rwa [← hs'] at hown
        | stillDown _ hs' _ => rwa [← hs'] at hown
        | failing hs hs' _ _ => rwa [hs, ← hs'] at hown
      · have hnone : newest k cb.toList = none :=
          newest_eq_none.mpr fun c hm he => hkn (he.symm.trans (hcb c hm))
        rw [hnone, Option.none_or]
        exact h.announced k m hk
    · rw [PyDict.contains_iff]
      simp only [PyDict.get?_set]
      rcases List.mem_append.mp hm with hm | hm
      · obtain ⟨m, hm⟩ := (PyDict.contains_iff _ _).mp (h.pending c hm)
        split_ifs
        · exact ⟨n', rfl⟩
        · exact ⟨m, hm⟩
      · exact ⟨n', if_pos (hcb c hm)⟩

theorem pending_split {s : CallbackThreads} {i : ℕ} {cb : Callback} (hcb : s.pending[i]? = some cb) :
    s.pending = s.pending.take i ++ ([cb] ++ s.pending.drop (i + 1)) := by
  obtain ⟨hlt, rfl⟩ := List.getElem?_eq_some_iff.mp hcb
  rw [List.singleton_append, List.getElem_cons_drop, List.take_append_drop]

theorem Announced.run {s : CallbackThreads} (h : s.Announced) {i : ℕ} {cb : Callback}
    (hcb : s.pending[i]? = some cb) (hok : ¬s.Overtakes (.run i)) :
    Announced { s with ring := cb.run digest s.ring, pending := s.pending.eraseIdx i } := by
  refine ⟨h.baseline, fun k n hn => ?_, fun c hc => h.pending c (List.mem_of_mem_eraseIdx hc)⟩
  have hI := h.announced k n hn
  rw [pending_split hcb, newest_append, newest_append] at hI
  simp only [Callback.contains_run, List.eraseIdx_eq_take_drop_succ, newest_append]
  cases hnew : newest k (s.pending.drop (i + 1)) with
  | some c => simpa [hnew] using hI
  | none =>
    rw [hnew, Option.none_or] at hI
    rw [Option.none_or]
    by_cases hk : cb.nodeId = k
    · -- the newest callback of the node runs: what is left of its callbacks says the same
      subst hk
      rw [newest_singleton_self, Option.some_or] at hI
      have hs : n.status = cb.announces := hI
      cases hold : newest cb.nodeId (s.pending.take i) with
      | none => simpa [hs] using Callback.apply_self rfl (h.baseline _ n hn) _
      | some c =>
        obtain ⟨hm, hc⟩ := newest_eq_some hold
        have hsame : c = cb := by
          by_contra hne
          exact hok ⟨cb, hcb, newest_eq_none.mp hnew, c, hm, hc, hne⟩
        exact hsame ▸ hs
    · have hnone : newest k [cb] = none := newest_eq_none.mpr (by simpa using hk)
      rw [hnone, Option.none_or] at hI
      rwa [Callback.apply_of_ne hk]

theorem Announced.step {s s' : CallbackThreads} {e : CallbackEvent} (h : s.Announced)
    (hok : ¬s.Overtakes e) (hs : s.step digest e = some s') : s'.Announced := by
  cases e with
  | check nodeId success =>
    obtain rfl := Option.some.inj hs
    exact h.check nodeId success
  | run i =>
    obtain ⟨cb, hcb, rfl⟩ := Option.map_eq_some_iff.mp hs
    exact h.run hcb hok

theorem announced_of_run {events : List CallbackEvent} {s : CallbackThreads}
    (h : (machine digest).Run events s)
    (hok : (machine digest).Meets (fun s e => ¬s.Overtakes e) events) : s.Announced :=
  Machine.Run.invariant_of_meets (I := fun _ s => s.Announced) announced_init
    (fun _ _ _ _ _ hI hok hs => hI.step hok hs) h hok

/-- As long as no callback overtakes an older one that says the opposite, the ring agrees
with health whenever no callback is pending. -/
theorem callback_order {events : List CallbackEvent} {s : CallbackThreads}
    (h : (machine digest).Run events s)
    (hok : (machine digest).Meets (fun s e => ¬s.Overtakes e) events) (hp : s.pending = []) :
    s.RingAgrees := by
  intro nodeId n hn
  have hI := (announced_of_run h hok).announced nodeId n hn
  have hnone : newest nodeId s.pending = none := by rw [hp]; rfl
  rw [hnone] at hI
  have hm : s.ring.nodes.contains nodeId = decide (n.status ≠ .unhealthy) := hI
  refine ⟨fun hs => ?_, fun hs => ?_⟩
  · simpa [hs] using hm
  · simpa [hs] using hm

/-- The first worker comes up. -/
theorem callback_order_up : ∃ s, (machine fun _ => 0).Run
    [.check "worker-a" true, .check "worker-a" true, .run 0] s ∧ s.RingAgrees := by
  have hfirst : ∀ s : CallbackThreads, ¬s.Overtakes (.run 0) := by
    rintro s ⟨-, -, -, c, hc, -⟩
    exact List.not_mem_nil hc
  have h₁ : (machine fun _ => 0).Run [.check "worker-a" true] _ := Machine.Run.nil.snoc rfl
  have h₂ := h₁.snoc (i := .check "worker-a" true) rfl
  have h₃ := h₂.snoc (i := .run 0) rfl
  have m₀ : (machine fun _ => 0).Meets (fun s e => ¬s.Overtakes e) [] := Machine.Meets.nil
  have m₁ : (machine fun _ => 0).Meets _ [.check "worker-a" true] := m₀.snoc Machine.Run.nil id
  have m₂ := m₁.snoc h₁ (i := .check "worker-a" true) id
  have m₃ := m₂.snoc h₂ (hfirst _)
  exact ⟨_, h₃, callback_order h₃ m₃ rfl⟩

/-- The callbacks still pending can run in any order, also with one of them last. -/
theorem exists_run_last (digest : String → ℕ) {s : CallbackThreads} {d : Callback}
    (hd : d ∈ s.pending) :
    ∃ (more : List CallbackEvent) (t : CallbackThreads),
      (machine digest).exec s more = some t ∧ t.monitor = s.monitor ∧ t.pending = [d] := by
  obtain ⟨older, newer, hp⟩ := List.append_of_mem hd
  induction older generalizing s with
  | cons c older ih =>
    obtain ⟨more, t, hexec, hm, ht⟩ := ih
      (s := { s with ring := c.run digest s.ring, pending := older ++ d :: newer })
      (by simp) rfl
    refine ⟨.run 0 :: more, t, ?_, hm, ht⟩
    simpa [Machine.exec, machine, step, hp] using hexec
  | nil =>
    induction newer generalizing s with
    | nil => exact ⟨[], s, rfl, rfl, hp⟩
    | cons c newer ih =>
      obtain ⟨more, t, hexec, hm, ht⟩ := ih
        (s := { s with ring := c.run digest s.ring, pending := d :: newer })
        (by simp) rfl
      refine ⟨.run 1 :: more, t, ?_, hm, ht⟩
      simpa [Machine.exec, machine, step, hp] using hexec

/-- Overtaking is the defect: from there the callbacks still pending can run in an order
after which the ring disagrees with health. -/
theorem overtaken_disagrees {events : List CallbackEvent} {s : CallbackThreads} {i : ℕ}
    (h : (machine digest).Run events s)
    (hok : (machine digest).Meets (fun s e => ¬s.Overtakes e) events) (ho : s.Overtakes (.run i)) :
    ∃ (more : List CallbackEvent) (t : CallbackThreads),
      (machine digest).Run (events ++ .run i :: more) t ∧ t.pending = [] ∧ ¬t.RingAgrees := by
  have hI := announced_of_run h hok
  obtain ⟨cb, hcb, hnewer, d, hd, hk, hne⟩ := ho
  obtain ⟨n, hn⟩ := (PyDict.contains_iff _ _).mp (hI.pending cb (List.mem_of_getElem? hcb))
  have hnew : newest cb.nodeId s.pending = some cb := by
    rw [pending_split hcb, newest_append, newest_append, newest_eq_none.mpr hnewer,
      Option.none_or, newest_singleton_self, Option.some_or]
  have hs : n.status = cb.announces := by
    have hs := hI.announced _ n hn
    rwa [hnew] at hs
  -- the opposite callback is left for the end
  have hrun : step digest s (.run i) =
      some { s with ring := cb.run digest s.ring, pending := s.pending.eraseIdx i } := by
    simp only [step, hcb, Option.map_some]
  obtain ⟨more, t, hexec, hm, hp⟩ := exists_run_last digest (d := d)
    (s := { s with ring := cb.run digest s.ring, pending := s.pending.eraseIdx i })
    (by rw [List.eraseIdx_eq_take_drop_succ]; exact List.mem_append_left _ hd)
  refine ⟨more ++ [.run 0], { t with ring := d.run digest t.ring, pending := [] }, ?_, rfl, ?_⟩
  · rw [Machine.run_iff_exec, Machine.exec_append, (Machine.run_iff_exec _).mp h, Option.bind_some,
      Machine.exec, show (machine digest).step s (.run i) = _ from hrun, Option.bind_some,
      Machine.exec_append, hexec]
    simp [Machine.exec, machine, step, hp]
  · intro hagrees
    have hmem : (d.run digest t.ring).nodes.contains cb.nodeId = decide (d.announces ≠ .unhealthy) := by
      rw [Callback.contains_run]
      exact Callback.apply_self hk (hI.baseline _ n hn) _
    have hopp : d.announces ≠ cb.announces := fun he => hne (Callback.eq_of_announces hk he)
    have ha := hagrees cb.nodeId n (by simpa only [hm] using hn)
    rw [hs, hmem] at ha
    cases cb with
    | onNodeDown k =>
      cases d with
      | onNodeDown k' => exact hopp rfl
      | onNodeUp k' => exact absurd (ha.2 rfl) (by simp [Callback.announces])
    | onNodeUp k =>
      cases d with
      | onNodeDown k' => exact absurd (ha.1 rfl) (by simp [Callback.announces])
      | onNodeUp k' => exact hopp rfl

/-- A node goes up and down, and its two callbacks run in the other order: it is unhealthy,
and in the ring. -/
theorem callbacks_swapped :
    let up : CallbackEvent := .check "worker-a" true
    let fail : CallbackEvent := .check "worker-a" false
    ∃ s, (machine fun _ => 0).Run [up, up, fail, fail, fail, .run 1, .run 0] s ∧
      s.pending = [] ∧
      (s.monitor.nodes.get? "worker-a").map NodeHealth.status = some .unhealthy ∧
      s.ring.nodes.contains "worker-a" = true :=
  ⟨_, (Machine.run_iff_exec _).mpr rfl, rfl, rfl, rfl⟩

end CallbackThreads
end InferenceCluster
