import InferenceCluster.Sanity.HashRing

/-! The ring after a history is a function of the members it ends with. -/

namespace InferenceCluster
namespace ConsistentHashRing

variable {digest : String → ℕ}

/-- The virtual nodes of all members, each under the id it is registered with. -/
theorem Canonical.flatMap_vnodes {r : ConsistentHashRing} (h : Canonical digest r) :
    r.nodes.values.flatMap (vnodes digest r.vnodesPerNode) =
      r.nodes.items.flatMap fun p =>
        (List.range (r.vnodesPerNode * p.2.weight).toNat).map fun i =>
          ⟨hash digest (p.1 ++ ":vnode:" ++ toString i), p.1⟩ := by
  rw [PyDict.values, List.flatMap_map]
  refine List.flatMap_congr fun p hp => ?_
  have hk := h.keyed p.1 p.2 ((r.nodes.get?_eq_some_iff p.1 p.2).mpr hp)
  rw [vnodes, hk]
  rfl

/-- Lookups read the entry list and the members, and nothing else. -/
theorem lookup_congr {r r' : ConsistentHashRing} (hr : r.ring = r'.ring)
    (hn : ∀ nodeId, r.nodes.get? nodeId = r'.nodes.get? nodeId) (key : String) :
    r.getNode digest key = r'.getNode digest key ∧
      ∀ n, r.getNodesForKey digest key n = r'.getNodesForKey digest key n := by
  obtain ⟨v, ring, nodes⟩ := r
  obtain ⟨v', ring', nodes'⟩ := r'
  obtain rfl : ring = ring' := hr
  have hi : ∀ nodeId, nodes.getItem nodeId = nodes'.getItem nodeId :=
    fun nodeId => by rw [PyDict.getItem, PyDict.getItem, hn]
  have hw : ∀ n ids seen result,
      walk nodes n ids seen result = walk nodes' n ids seen result := by
    intro n ids
    induction ids with
    | nil => intro seen result; rfl
    | cons k ids ih =>
      intro seen result
      simp only [walk, hi, ih]
  constructor
  · cases ring with
    | nil => rfl
    | cons e rest => exact congrArg (Except.map some) (hi _)
  · intro n
    simp only [getNodesForKey, start, hw]

/-- The walk over registered ids raises no `KeyError`. -/
theorem walk_ok {nodes : PyDict String Node} (n : ℕ) {ids : List String}
    (h : ∀ nodeId ∈ ids, ∃ node, nodes.get? nodeId = some node) (seen : List String)
    (result : List Node) : ∃ l, walk nodes n ids seen result = .ok l := by
  induction ids generalizing seen result with
  | nil => exact ⟨result, rfl⟩
  | cons nodeId ids ih =>
    have hids := ih fun k hk => h k (List.mem_cons_of_mem _ hk)
    obtain ⟨node, hn⟩ := h nodeId List.mem_cons_self
    by_cases hs : nodeId ∈ seen
    · simp only [walk, hs, if_true]
      split_ifs
      · exact ⟨_, rfl⟩
      · exact hids seen result
    · simp only [walk, hs, if_false, PyDict.getItem_of_get? hn]
      change ∃ l, (if (result ++ [node]).length = n then _ else _) = _
      split_ifs
      · exact ⟨_, rfl⟩
      · exact hids _ _

theorem Canonical.lookup_ok {r : ConsistentHashRing} (h : Canonical digest r) (key : String) :
    (∃ owner, r.getNode digest key = .ok owner) ∧
      ∀ n, ∃ nodes, r.getNodesForKey digest key n = .ok nodes := by
  refine ⟨⟨_, h.getNode_eq key⟩, fun n => ?_⟩
  unfold getNodesForKey
  split_ifs
  · exact ⟨[], rfl⟩
  · refine walk_ok n (fun nodeId hm => ?_) [] []
    obtain ⟨e, he, rfl⟩ := (h.mem_met key nodeId).mp hm
    exact h.owner_mem he

/-- The entry list is the sorted list of the members' virtual nodes, so a ring and its
lookups do not depend on the history that led to the members, and no lookup misses. -/
theorem ring_of_history (digest : String → ℕ) (v : ℤ) (ops : List Op) :
    (run digest v ops).ring.Pairwise (· ≤ ·) ∧
    (run digest v ops).ring =
      ((run digest v ops).nodes.items.flatMap fun p =>
        (List.range (v * p.2.weight).toNat).map fun i =>
          (⟨hash digest (p.1 ++ ":vnode:" ++ toString i), p.1⟩ : VNode)).insertionSort (· ≤ ·) ∧
    (∀ e ∈ (run digest v ops).ring, (run digest v ops).nodes.contains e.nodeId = true) ∧
    (∀ ops', (∀ nodeId, (run digest v ops').nodes.get? nodeId =
        (run digest v ops).nodes.get? nodeId) →
      (run digest v ops').ring = (run digest v ops).ring ∧
      ∀ key, getNode digest (run digest v ops') key = getNode digest (run digest v ops) key ∧
        ∀ n, getNodesForKey digest (run digest v ops') key n =
          getNodesForKey digest (run digest v ops) key n) ∧
    ∀ key, (∃ owner, getNode digest (run digest v ops) key = .ok owner) ∧
      ∀ n, ∃ nodes, getNodesForKey digest (run digest v ops) key n = .ok nodes := by
  have h := canonical_run digest v ops
  have hv := run_vnodesPerNode digest v ops
  refine ⟨h.sorted, ?_, ?_, ?_, h.lookup_ok⟩
  · have hp := h.perm
    rw [h.flatMap_vnodes, hv] at hp
    exact eq_of_sorted_perm h.sorted (List.pairwise_insertionSort _ _)
      (hp.trans (List.perm_insertionSort _ _).symm)
  · intro e he
    exact (PyDict.contains_iff _ _).mpr (h.owner_mem he)
  · intro ops' hn
    have hr : (run digest v ops').ring = (run digest v ops).ring :=
      (canonical_run digest v ops').ring_eq h (by rw [run_vnodesPerNode, hv]) hn
    exact ⟨hr, lookup_congr hr hn⟩

end ConsistentHashRing
end InferenceCluster
