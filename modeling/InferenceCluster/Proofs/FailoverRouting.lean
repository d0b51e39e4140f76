import InferenceCluster.Sanity.Router

/-! Failover in `route`. The candidates are cut at `len(WORKER_NODES)` while the ring may
hold more nodes: a healthy node behind the cut is never tried. -/

namespace InferenceCluster

variable {digest : String → ℕ}

namespace ConsistentHashRing

theorem filterMap_take {ι β : Type} {f : ι → Option β} {l : List ι}
    (h : ∀ x ∈ l, ∃ y, f x = some y) (n : ℕ) :
    (l.take n).filterMap f = (l.filterMap f).take n := by
  induction l generalizing n with
  | nil => simp
  | cons x l ih =>
    obtain ⟨y, hy⟩ := h x List.mem_cons_self
    cases n with
    | zero => simp
    | succ n =>
      rw [List.take_succ_cons, List.filterMap_cons_some hy, List.filterMap_cons_some hy,
        List.take_succ_cons, ih fun z hz => h z (List.mem_cons_of_mem _ hz)]

/-- `get_nodes_for_key` returns the first `n` members in the order of the walk. -/
theorem Canonical.getNodesForKey_eq_take {r : ConsistentHashRing} (h : Canonical digest r)
    (key : String) {n : ℕ} (hn : 0 < n) :
    r.getNodesForKey digest key n = .ok ((memberOrder digest r key).take n) := by
  rw [h.getNodesForKey_eq key hn, filterMap_take fun k hk => h.mem_owners hk]
  rfl

end ConsistentHashRing

open ConsistentHashRing

/-- `route` returns the first healthy node among all members in the order of the walk, and
raises 503 only if no member is healthy. -/
def FailsOver (digest : String → ℕ) (ring : ConsistentHashRing) (monitor : HeartbeatMonitor)
    (sessionId : String) : Prop :=
  ∃ order, ring.order digest sessionId = .ok order ∧ order.Perm ring.nodes.values ∧
    route digest ring monitor sessionId =
      (match order.find? fun node => monitor.isHealthy node.nodeId with
        | some node => .ok node
        | none => .error (.http noHealthyWorkers)) ∧
    (route digest ring monitor sessionId = .error (.http noHealthyWorkers) →
      ∀ nodeId, ring.nodes.contains nodeId = true → monitor.isHealthy nodeId = false)

theorem route_eq {ring : ConsistentHashRing} (h : ring.WellFormed digest)
    (monitor : HeartbeatMonitor) (sessionId : String) :
    route digest ring monitor sessionId =
      match ((memberOrder digest ring sessionId).take workerNodes.length).find?
          fun node => monitor.isHealthy node.nodeId with
        | some node => .ok node
        | none => .error (.http noHealthyWorkers) := by
  have hc := h.canonical.getNodesForKey_eq_take sessionId (by decide : 0 < workerNodes.length)
  cases hf : ((memberOrder digest ring sessionId).take workerNodes.length).find?
    fun node => monitor.isHealthy node.nodeId <;> simp only [route, hc, hf]

/-- The members of the ring are the nodes of the order, under their own ids. -/
theorem contains_iff_mem_memberOrder {ring : ConsistentHashRing} (h : ring.WellFormed digest)
    (sessionId nodeId : String) : ring.nodes.contains nodeId = true ↔
      ∃ node ∈ memberOrder digest ring sessionId, node.nodeId = nodeId := by
  have hperm := h.canonical.memberOrder_perm h.populated sessionId
  constructor
  · intro hc
    obtain ⟨node, hn⟩ := (PyDict.contains_iff _ _).mp hc
    exact ⟨node, hperm.mem_iff.mpr ((PyDict.mem_values_iff _ _).mpr ⟨nodeId, hn⟩),
      h.canonical.keyed nodeId node hn⟩
  · rintro ⟨node, hm, rfl⟩
    obtain ⟨k, hk⟩ := (PyDict.mem_values_iff _ _).mp (hperm.mem_iff.mp hm)
    exact (PyDict.contains_iff _ _).mpr ⟨node, by rw [h.canonical.keyed k node hk, hk]⟩

namespace RouterSystem

variable {K : Type} [Zero K]

/-- Failover is complete exactly when no member of the ring is healthy, or one of the
first `len(WORKER_NODES)` nodes of the session's order is. -/
theorem failsOver_iff {s : RouterSystem K} (h : (machine digest K).Reachable s)
    (monitor : HeartbeatMonitor) (sessionId : String) :
    FailsOver digest s.ring monitor sessionId ↔
      (∀ nodeId, s.ring.nodes.contains nodeId = true → monitor.isHealthy nodeId = false) ∨
      ∃ order, s.ring.order digest sessionId = .ok order ∧
        ∃ node ∈ order.take workerNodes.length, monitor.isHealthy node.nodeId = true := by
  have hw := reachable_wellFormed h
  have horder := hw.canonical.order_eq hw.populated sessionId
  have hperm := hw.canonical.memberOrder_perm hw.populated sessionId
  have hroute := route_eq hw monitor sessionId
  have hmem := contains_iff_mem_memberOrder hw sessionId
  unfold FailsOver
  simp only [horder, Except.ok.injEq, exists_eq_left', hroute]
  set l := memberOrder digest s.ring sessionId with hl
  constructor
  · rintro ⟨-, -, h503⟩
    cases hf : (l.take workerNodes.length).find? fun node => monitor.isHealthy node.nodeId with
    | none => exact .inl (h503 (by rw [hf]))
    | some node => exact .inr ⟨node, List.mem_of_find?_eq_some hf, by simpa using List.find?_some hf⟩
  · intro hcond
    have hdrop : l = l.take workerNodes.length ++ l.drop workerNodes.length :=
      (List.take_append_drop _ l).symm
    rcases hcond with hnone | ⟨node, hnode, hhealthy⟩
    · have hall : ∀ node ∈ l, ¬monitor.isHealthy node.nodeId = true := fun node hn => by
        simp [hnone node.nodeId ((hmem node.nodeId).mpr ⟨node, hn, rfl⟩)]
      refine ⟨hperm, ?_, fun _ => hnone⟩
      rw [List.find?_eq_none.mpr hall,
        List.find?_eq_none.mpr fun node hn => hall node (List.mem_of_mem_take hn)]
    · cases hf : (l.take workerNodes.length).find? fun node => monitor.isHealthy node.nodeId with
      | none => exact absurd hhealthy (List.find?_eq_none.mp hf node hnode)
      | some first =>
        refine ⟨hperm, ?_, fun h503 => by cases h503⟩
        rw [hdrop, List.find?_append, hf]
        rfl

/-- Before the first heartbeat no node is known to be healthy. -/
theorem failsOver_iff_startup :
    FailsOver (fun _ => 0) (init (fun _ => 0) ℤ).ring {} "session-1" :=
  (failsOver_iff (K := ℤ) ⟨[], Machine.Run.nil⟩ {} "session-1").mpr (.inl fun _ _ => rfl)

/-! ### A third node -/

theorem firsts_sublist {β : Type} [DecidableEq β] (seen l : List β) :
    (List.firsts seen l).Sublist l := by
  induction l generalizing seen with
  | nil => exact List.Sublist.refl _
  | cons x l ih =>
    rw [List.firsts]
    split_ifs
    · exact (ih seen).cons x
    · exact (ih _).cons_cons x

/-- When all positions collide, every walk meets the nodes in the order of their ids. -/
theorem owners_sorted {r : ConsistentHashRing} (h : Canonical (fun _ => 0) r) (key : String) :
    (owners (fun _ => 0) r key).Pairwise (· ≤ ·) := by
  have hpos : ∀ e ∈ r.ring, e.pos = 0 := by
    intro e he
    obtain ⟨node, -, hm⟩ := List.mem_flatMap.mp (h.perm.mem_iff.mp he)
    obtain ⟨i, -, rfl⟩ := List.mem_map.mp hm
    rfl
  have hle : ∀ e ∈ r.ring, (⟨hash (fun _ => 0) key, ""⟩ : VNode) ≤ e := by
    intro e he
    refine Prod.Lex.toLex_le_toLex.mpr (.inr ⟨(hpos e he).symm, ?_⟩)
    exact String.le_iff_toList_le.mpr (not_lt.mp (List.not_lt_nil _))
  have hmet : met (fun _ => 0) r key = r.ring.map VNode.nodeId := by
    rw [h.met_eq, List.filter_eq_self.mpr fun e he => by simpa using hle e he,
      List.filter_eq_nil_iff.mpr fun e he => by simpa using hle e he, List.append_nil]
  have hsorted : (r.ring.map VNode.nodeId).Pairwise (· ≤ ·) := by
    refine List.pairwise_map.mpr (h.sorted.imp_of_mem fun {a b} ha hb hab => ?_)
    rcases Prod.Lex.toLex_le_toLex.mp hab with hlt | ⟨-, hid⟩
    · simp [hpos a ha, hpos b hb] at hlt
    · exact hid
  unfold owners
  rw [hmet]
  exact hsorted.sublist (firsts_sublist _ _)

/-- Only `worker-b` is healthy. -/
def onlyWorkerB : HeartbeatMonitor :=
  { nodes := PyDict.empty.set "worker-b" ⟨"http://127.0.0.1:8002", .healthy, 2, 2, 0⟩ }

/-- One autoscaled worker joins; the session's order is `worker-a`, `worker-auto-8003`,
`worker-b`, and the only healthy node is the last. -/
theorem route_misses_third_node : ∃ s, (machine (fun _ => 0) ℤ).Run [.scaleUp 0 0 0 (some 1),
      .addToRing ⟨"worker-auto-8003", "http://127.0.0.1:8003", 8003⟩] s ∧
    s.ring.nodes.contains "worker-b" = true ∧ onlyWorkerB.isHealthy "worker-b" = true ∧
    route (fun _ => 0) s.ring onlyWorkerB "session-1" = .error (.http noHealthyWorkers) ∧
    ¬FailsOver (fun _ => 0) s.ring onlyWorkerB "session-1" := by
  obtain ⟨s, hs, hkeys⟩ : ∃ s, (machine (fun _ => 0) ℤ).exec (machine (fun _ => 0) ℤ).init
      [.scaleUp 0 0 0 (some 1), .addToRing ⟨"worker-auto-8003", "http://127.0.0.1:8003", 8003⟩] =
        some s ∧ s.ring.nodes.keys = ["worker-a", "worker-b", "worker-auto-8003"] := ⟨_, rfl, rfl⟩
  have hr := (Machine.run_iff_exec _).mpr hs
  have hw := reachable_wellFormed ⟨_, hr⟩
  have howners : owners (fun _ => 0) s.ring "session-1" =
      ["worker-a", "worker-auto-8003", "worker-b"] := by
    have hp := hw.canonical.owners_perm hw.populated "session-1"
    rw [hkeys] at hp
    exact (hp.trans (by decide)).eq_of_pairwise (fun _ _ _ _ => le_antisymm)
      (owners_sorted hw.canonical _) (by decide)
  have hids := hw.canonical.map_nodeId_memberOrder "session-1"
  rw [howners] at hids
  have hmem : s.ring.nodes.contains "worker-b" = true := by
    obtain ⟨n, hn⟩ := (s.ring.nodes.mem_keys_iff "worker-b").mp (by rw [hkeys]; decide)
    exact (s.ring.nodes.contains_iff _).mpr ⟨n, hn⟩
  have hroute : route (fun _ => 0) s.ring onlyWorkerB "session-1" =
      .error (.http noHealthyWorkers) := by
    have hnone : ∀ node ∈ (memberOrder (fun _ => 0) s.ring "session-1").take workerNodes.length,
        ¬onlyWorkerB.isHealthy node.nodeId = true := by
      intro node hm
      have hid := List.mem_map_of_mem (f := Node.nodeId) hm
      rw [List.map_take, hids] at hid
      simp only [workerNodes, List.length_cons, List.length_nil, List.take_succ_cons,
        List.take_zero, List.mem_cons, List.not_mem_nil, or_false] at hid
      rcases hid with hid | hid <;> rw [hid] <;> decide
    rw [route_eq hw, List.find?_eq_none.mpr hnone]
  refine ⟨s, hr, hmem, by decide, hroute, ?_⟩
  rintro ⟨order, -, -, -, h503⟩
  exact absurd (h503 hroute "worker-b" hmem) (by decide)

end RouterSystem
end InferenceCluster
