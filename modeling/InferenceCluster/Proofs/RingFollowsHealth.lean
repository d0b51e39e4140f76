import InferenceCluster.Sanity.Router

/-! Ring membership and health. `on_node_up` looks its node up in the static list, so an
autoscaled node that was down and comes back is not put back into the ring. Apart from
that step, membership is what the pending callbacks will make agree with the statuses. -/

namespace InferenceCluster

/-- Membership of a node once the pending callbacks have run. -/
def settled (k : String) (member : Bool) (pending : List Callback) : Bool :=
  pending.foldl (Callback.apply k) member

theorem settled_of_ne {k : String} {pending : List Callback} (h : ∀ cb ∈ pending, cb.nodeId ≠ k)
    (member : Bool) : settled k member pending = member := by
  induction pending generalizing member with
  | nil => rfl
  | cons cb pending ih =>
    rw [settled, List.foldl_cons, Callback.apply_of_ne (h cb List.mem_cons_self)]
    exact ih (fun c hc => h c (List.mem_cons_of_mem _ hc)) member

theorem settled_append (k : String) (member : Bool) (pending : List Callback) (cb : Option Callback) :
    settled k member (pending ++ cb.toList) =
      cb.elim (settled k member pending) (Callback.apply k (settled k member pending)) := by
  cases cb <;> simp [settled]

/-- The event is a scale-down of the autoscaler. -/
def RouterEvent.isScaleDown {K : Type} : RouterEvent K → Bool
  | .scaleDown _ _ _ => true
  | _ => false

namespace RouterSystem

variable {K : Type} {digest : String → ℕ}

/-- The check moves an autoscaled node from unhealthy to healthy. -/
def RevivesAutoscaled (s : RouterSystem K) : RouterEvent K → Prop
  | .check nodeId success => success = true ∧ isBaseline nodeId = false ∧
      ∃ n, s.monitor.nodes.get? nodeId = some n ∧ n.status = .unhealthy ∧
        s.monitor.recoveryThreshold ≤ if n.streak ≤ 0 then 1 else n.streak + 1
  | _ => False

/-- Membership agrees with health as soon as the pending callbacks have run; callbacks are
about registered nodes, and registrations still to come about new ones. -/
structure Agrees (s : RouterSystem K) : Prop where
  member : ∀ k n, s.monitor.nodes.get? k = some n →
    settled k (s.ring.nodes.contains k) s.pending = decide (n.status ≠ .unhealthy)
  pending : ∀ cb ∈ s.pending, s.monitor.nodes.contains cb.nodeId = true
  registering : ∀ reg ∈ s.registering, s.monitor.nodes.get? reg.nodeId = none ∧
    ∃ port < s.autoscaler.nextPort, reg.nodeId = Autoscaler.autoId port
  distinct : (s.registering.map Registration.nodeId).Nodup
  monitored : ∀ k n, s.monitor.nodes.get? k = some n →
    isBaseline k = true ∨ ∃ port < s.autoscaler.nextPort, k = Autoscaler.autoId port

/-- The startup registers the nodes of the static list and nothing else. -/
theorem registered_init [Zero K] {k : String} {n : NodeHealth}
    (hk : (init digest K).monitor.nodes.get? k = some n) :
    isBaseline k = true ∧ n.status = .unknown := by
  simp only [init, workerNodes, List.foldl_cons, List.foldl_nil, registerWorker,
    HeartbeatMonitor.register, PyDict.get?_set, PyDict.get?_empty] at hk
  split_ifs at hk with hb ha <;> obtain rfl := Option.some.inj hk
  · rw [hb]
    exact ⟨rfl, rfl⟩
  · rw [ha]
    exact ⟨rfl, rfl⟩

theorem agrees_init [Zero K] : (init digest K).Agrees := by
  refine ⟨fun k n hk => ?_, fun cb hcb => absurd hcb List.not_mem_nil,
    fun reg hreg => absurd hreg List.not_mem_nil, List.nodup_nil,
    fun k n hk => .inl (registered_init hk).1⟩
  obtain ⟨hb, hs⟩ := registered_init hk
  have hmem : (init digest K).ring.nodes.contains k = true := by
    simp only [isBaseline, workerNodes, List.any_cons, List.any_nil, Bool.or_false,
      Bool.or_eq_true, decide_eq_true_eq] at hb
    simp only [init, workerNodes, List.foldl_cons, List.foldl_nil, registerWorker,
      ConsistentHashRing.contains_addNode]
    rcases hb with rfl | rfl <;> simp
  rw [hs, show (init digest K).pending = [] from rfl, settled, List.foldl_nil, hmem]
  rfl

theorem Agrees.check {s : RouterSystem K} (h : s.Agrees) {nodeId : String} {success : Bool}
    (hok : ¬s.RevivesAutoscaled (.check nodeId success)) :
    Agrees { s with
      monitor := (s.monitor.check nodeId success).1
      pending := s.pending ++ (s.monitor.check nodeId success).2.toList } := by
  cases hn : s.monitor.nodes.get? nodeId with
  | none =>
    rw [HeartbeatMonitor.check_of_get?_none hn]
    simpa using h
  | some n =>
    obtain ⟨n', cb, hc, hr⟩ := HeartbeatMonitor.check_of_get? hn success
    rw [hc]
    have hcb : ∀ c ∈ cb.toList, c.nodeId = nodeId := by
      intro c hm
      cases hr <;> simp at hm <;> rw [hm] <;> rfl
    have hown := h.member nodeId n hn
    have hnew : settled nodeId (s.ring.nodes.contains nodeId) (s.pending ++ cb.toList) =
        decide (n'.status ≠ .unhealthy) := by
      rw [settled_append, hown]
      cases hr with
      | stillUp hs hs' hk => simp [hs, hs']
      | recovering hs hs' hk hlt => simp [hs']
      | up hs hs' hk hle =>
        by_cases hu : n.status = .unhealthy
        · -- only a baseline node comes back
          have hb : isBaseline nodeId = true := by
            by_contra hb
            exact hok ⟨rfl, by simpa using hb, n, hn, hu, hk ▸ hle⟩
          simp [Callback.apply, hb, hs']
        · simp [Callback.apply, hu, hs']
      | stillDown hs hs' hk => simp [hs']
      | failing hs hs' hk hlt => simp [hs, hs']
      | down hs hs' hk hle => simp [Callback.apply, hs']
    refine ⟨fun k m hk => ?_, fun c hm => ?_, fun reg hreg => ?_, h.distinct, fun k m hk => ?_⟩
    · simp only [PyDict.get?_set] at hk
      split_ifs at hk with hkn
      · obtain rfl := Option.some.inj hk
        rw [hkn]
        exact hnew
      · rw [← h.member k m hk, settled, List.foldl_append]
        exact settled_of_ne (fun c hm he => hkn ((hcb c hm).symm.trans he).symm) _
    · rw [PyDict.contains_iff]
      simp only [PyDict.get?_set]
      rcases List.mem_append.mp hm with hm | hm
      · obtain ⟨m, hm⟩ := (PyDict.contains_iff _ _).mp (h.pending c hm)
        split_ifs
        · exact ⟨n', rfl⟩
        · exact ⟨m, hm⟩
      · exact ⟨n', if_pos (hcb c hm)⟩
    · obtain ⟨hnone, hport⟩ := h.registering reg hreg
      refine ⟨?_, hport⟩
      simp only [PyDict.get?_set]
      rw [if_neg, hnone]
      intro he
      rw [he, hn] at hnone
      cases hnone
    · simp only [PyDict.get?_set] at hk
      split_ifs at hk with hkn
      · exact hkn ▸ h.monitored nodeId n hn
      · exact h.monitored k m hk

theorem Agrees.runCallback {s : RouterSystem K} (h : s.Agrees) {cb : Callback}
    {pending : List Callback} (hp : s.pending = cb :: pending) :
    Agrees { s with ring := cb.run digest s.ring, pending } := by
  refine ⟨fun k n hk => ?_, fun c hc => ?_, h.registering, h.distinct, h.monitored⟩
  · have hm := h.member k n hk
    rw [hp, settled, List.foldl_cons] at hm
    rw [← hm, Callback.contains_run]
    rfl
  · exact h.pending c (hp ▸ List.mem_cons_of_mem _ hc)

theorem Agrees.scaleUp {s : RouterSystem K} (h : s.Agrees) (now ts queueDepth : K)
    (proc : Option ℕ) : Agrees { s with
      autoscaler := (s.autoscaler.scaleUp now ts queueDepth proc).1
      registering := s.registering ++ (s.autoscaler.scaleUp now ts queueDepth proc).2.toList } := by
  have hport : (s.autoscaler.scaleUp now ts queueDepth proc).1.nextPort =
      s.autoscaler.nextPort + 1 := by
    cases proc <;> rfl
  have hnew : ∀ reg ∈ (s.autoscaler.scaleUp now ts queueDepth proc).2.toList,
      reg.nodeId = Autoscaler.autoId s.autoscaler.nextPort := by
    intro reg hreg
    cases proc <;> simp [Autoscaler.scaleUp, Autoscaler.reserve] at hreg
    rw [hreg]
  have hlift : ∀ k, (∃ port < s.autoscaler.nextPort, k = Autoscaler.autoId port) →
      ∃ port < s.autoscaler.nextPort + 1, k = Autoscaler.autoId port := by
    rintro k ⟨port, hlt, hk⟩
    exact ⟨port, Nat.lt_succ_of_lt hlt, hk⟩
  -- the reserved id has not been handed out before
  have hfresh : ∀ k, (∃ port < s.autoscaler.nextPort, k = Autoscaler.autoId port) →
      k ≠ Autoscaler.autoId s.autoscaler.nextPort := by
    rintro k ⟨port, hlt, rfl⟩ he
    exact hlt.ne (autoId_injective he)
  refine ⟨h.member, h.pending, fun reg hreg => ?_, ?_, fun k n hk => ?_⟩
  · simp only [hport]
    rcases List.mem_append.mp hreg with hreg | hreg
    · exact ⟨(h.registering reg hreg).1, hlift _ (h.registering reg hreg).2⟩
    · refine ⟨?_, s.autoscaler.nextPort, Nat.lt_succ_self _, hnew reg hreg⟩
      by_contra hsome
      obtain ⟨n, hn⟩ := Option.ne_none_iff_exists'.mp hsome
      rw [hnew reg hreg] at hn
      rcases h.monitored _ n hn with hb | hp
      · rw [autoId_not_baseline] at hb
        cases hb
      · exact hfresh _ hp rfl
  · rw [List.map_append]
    refine List.nodup_append.mpr ⟨h.distinct, ?_, fun a ha b hb => ?_⟩
    · cases proc <;> simp [Autoscaler.scaleUp]
    · obtain ⟨reg, hreg, rfl⟩ := List.mem_map.mp ha
      obtain ⟨reg', hreg', rfl⟩ := List.mem_map.mp hb
      rw [hnew reg' hreg']
      exact hfresh _ (h.registering reg hreg).2
  · rw [hport]
    exact (h.monitored k n hk).imp_right (hlift k)

theorem Agrees.addToRing {s : RouterSystem K} (h : s.Agrees) {reg : Registration}
    (hreg : reg ∈ s.registering) : Agrees { s with
      ring := (Autoscaler.addToRing digest s.ring s.monitor reg).1
      monitor := (Autoscaler.addToRing digest s.ring s.monitor reg).2
      registering := s.registering.erase reg } := by
  obtain ⟨hnone, hport⟩ := h.registering reg hreg
  have hpend : ∀ cb ∈ s.pending, cb.nodeId ≠ reg.nodeId := by
    intro cb hcb he
    have hc := h.pending cb hcb
    rw [he, PyDict.contains_iff, hnone] at hc
    obtain ⟨n, hn⟩ := hc
    cases hn
  refine ⟨fun k n hk => ?_, fun cb hcb => ?_, fun r hr => ?_, ?_, fun k n hk => ?_⟩
  · simp only [Autoscaler.addToRing, HeartbeatMonitor.register, PyDict.get?_set,
      ConsistentHashRing.contains_addNode] at hk ⊢
    split_ifs at hk with hkn
    · obtain rfl := Option.some.inj hk
      rw [hkn, settled_of_ne hpend]
      simp
    · rw [beq_eq_false_iff_ne.mpr hkn, Bool.or_false]
      exact h.member k n hk
  · rw [PyDict.contains_iff]
    simp only [Autoscaler.addToRing, HeartbeatMonitor.register, PyDict.get?_set,
      if_neg (hpend cb hcb)]
    exact (PyDict.contains_iff _ _).mp (h.pending cb hcb)
  · have hmem := List.mem_of_mem_erase hr
    obtain ⟨hn, hp⟩ := h.registering r hmem
    refine ⟨?_, hp⟩
    simp only [Autoscaler.addToRing, HeartbeatMonitor.register, PyDict.get?_set]
    rw [if_neg, hn]
    intro he
    have hne : r ≠ reg := ((h.distinct.of_map).mem_erase_iff.mp hr).1
    exact hne (List.inj_on_of_nodup_map h.distinct hmem hreg he)
  · exact h.distinct.sublist (List.erase_sublist.map _)
  · simp only [Autoscaler.addToRing, HeartbeatMonitor.register, PyDict.get?_set] at hk
    split_ifs at hk with hkn
    · exact .inr (hkn ▸ hport)
    · exact h.monitored k n hk

theorem Agrees.giveUp {s : RouterSystem K} (h : s.Agrees) (reg : Registration) :
    Agrees { s with registering := s.registering.erase reg } :=
  ⟨h.member, h.pending, fun r hr => h.registering r (List.mem_of_mem_erase hr),
    h.distinct.sublist (List.erase_sublist.map _), h.monitored⟩

theorem Agrees.step {s s' : RouterSystem K} {e : RouterEvent K} (h : s.Agrees)
    (hok : ¬s.RevivesAutoscaled e) (hscale : e.isScaleDown = false)
    (hs : Stepped digest s e s') : s'.Agrees := by
  cases hs with
  | checked => exact h.check hok
  | called hp => exact h.runCallback hp
  | scaledUp => exact h.scaleUp _ _ _ _
  | added hreg => exact h.addToRing hreg
  | gaveUp hreg => exact h.giveUp _
  | notOwned => exact h
  | scaledDown hproc => cases hscale

/-- In a run without scale-down in which no autoscaled node recovers, ring membership
agrees with health whenever no callback is pending. -/
theorem ring_follows_health [Zero K] {events : List (RouterEvent K)} {s : RouterSystem K}
    (h : (machine digest K).Run events s) (hscale : ∀ e ∈ events, e.isScaleDown = false)
    (hok : (machine digest K).Meets (fun s e => ¬s.RevivesAutoscaled e) events)
    (hp : s.pending = []) {nodeId : String} {n : NodeHealth}
    (hn : s.monitor.nodes.get? nodeId = some n) :
    (n.status = .healthy → s.ring.nodes.contains nodeId = true) ∧
    (n.status = .unhealthy → s.ring.nodes.contains nodeId = false) := by
  have hok' : (machine digest K).Meets
      (fun s e => ¬s.RevivesAutoscaled e ∧ e.isScaleDown = false) events := fun js e hpre t ht =>
    ⟨hok js e hpre t ht, hscale e (hpre.subset (by simp))⟩
  have hI : s.Agrees := Machine.Run.invariant_of_meets (I := fun _ s => s.Agrees) agrees_init
    (fun _ _ _ _ _ hI hok hs => hI.step hok.1 hok.2 (stepped hs)) h hok'
  have hm := hI.member nodeId n hn
  rw [hp, settled, List.foldl_nil] at hm
  refine ⟨fun hs => ?_, fun hs => ?_⟩
  · simpa [hs] using hm
  · simpa [hs] using hm

/-- A worker of the static list comes up. -/
theorem ring_follows_health_up : ∃ s, (machine (fun _ => 0) ℤ).Run
    [.check "worker-a" true, .check "worker-a" true, .runCallback] s ∧
      s.ring.nodes.contains "worker-a" = true := by
  have hok : ∀ s : RouterSystem ℤ, ¬s.RevivesAutoscaled (.check "worker-a" true) := by
    rintro s ⟨-, hb, -⟩
    exact absurd hb (by decide)
  have h₁ : (machine (fun _ => 0) ℤ).Run [.check "worker-a" true] _ := Machine.Run.nil.snoc rfl
  have h₂ := h₁.snoc (i := .check "worker-a" true) rfl
  have h₃ := h₂.snoc (i := .runCallback) rfl
  have m₀ : (machine (fun _ => 0) ℤ).Meets (fun s e => ¬s.RevivesAutoscaled e) [] :=
    Machine.Meets.nil
  have m₁ : (machine (fun _ => 0) ℤ).Meets _ [.check "worker-a" true] :=
    m₀.snoc Machine.Run.nil (hok _)
  have m₂ := m₁.snoc h₁ (hok _)
  have m₃ := m₂.snoc h₂ (i := .runCallback) id
  refine ⟨_, h₃, (ring_follows_health h₃ (by decide) m₃ rfl (n := ?_) ?_).1 ?_⟩
  · exact ⟨"http://127.0.0.1:8001", .healthy, 2, 2, 0⟩
  · rfl
  · rfl

/-- The first autoscaled worker comes up, goes down and comes back: it is healthy, and no
longer in the ring. -/
theorem autoscaled_lost_after_recovery :
    let auto : RouterEvent ℤ := .check "worker-auto-8003" true
    let fail : RouterEvent ℤ := .check "worker-auto-8003" false
    ∃ s, (machine (fun _ => 0) ℤ).Run [.scaleUp 0 0 0 (some 1),
        .addToRing ⟨"worker-auto-8003", "http://127.0.0.1:8003", 8003⟩, auto, auto, .runCallback,
        fail, fail, fail, .runCallback, auto, auto, .runCallback] s ∧
      s.pending = [] ∧ s.monitor.isHealthy "worker-auto-8003" = true ∧
      s.ring.nodes.contains "worker-auto-8003" = false :=
  ⟨_, (Machine.run_iff_exec _).mpr rfl, rfl, rfl, rfl⟩

end RouterSystem
end InferenceCluster
