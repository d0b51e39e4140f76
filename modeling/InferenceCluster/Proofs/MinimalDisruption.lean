import InferenceCluster.Sanity.HashRing

/-! Removing a node takes it out of every key's order and moves nothing else; adding a
node puts it somewhere into the order and moves nothing else. -/

namespace InferenceCluster
namespace ConsistentHashRing

variable {digest : String → ℕ}

theorem order_removeNode {r : ConsistentHashRing} (h : Canonical digest r) (hp : r.Populated)
    (nodeId key : String) :
    order digest (r.removeNode digest nodeId) key =
      .ok ((memberOrder digest r key).filter fun n => n.nodeId ≠ nodeId) := by
  have h' := canonical_removeNode h nodeId
  rw [h'.order_eq (hp.removeNode nodeId)]
  refine congrArg Except.ok (memberOrder_filter h h' (removeNode_ring h nodeId) ?_ key)
  intro k hk
  rw [removeNode_get?, if_neg hk]

theorem memberOrder_addNode {r : ConsistentHashRing} (h : Canonical digest r) {node : Node}
    (hc : r.nodes.contains node.nodeId = false) (key : String) :
    memberOrder digest r key =
      (memberOrder digest (r.addNode digest node) key).filter fun n => n.nodeId ≠ node.nodeId := by
  refine memberOrder_filter (canonical_addNode h node) h (addNode_ring_filter h hc) ?_ key
  intro k hk
  rw [addNode_get? hc, if_neg hk]

/-- The head of a filtered list is the old head, unless that was filtered out. -/
theorem head?_filter_ne {l : List Node} {nodeId : String} (hd : (l.map Node.nodeId).Nodup) :
    ((l.filter fun n => n.nodeId ≠ nodeId).head? ≠ l.head? →
      l.head?.map Node.nodeId = some nodeId) ∧
    (l.head?.map Node.nodeId = some nodeId →
      (l.filter fun n => n.nodeId ≠ nodeId).head? = l[1]?) := by
  cases l with
  | nil => simp
  | cons n l =>
    rw [List.map_cons, List.nodup_cons] at hd
    by_cases hn : n.nodeId = nodeId
    · have hrest : l.filter (fun m => m.nodeId ≠ nodeId) = l := by
        refine List.filter_eq_self.mpr fun m hm => ?_
        simp only [ne_eq, decide_not, Bool.not_eq_true', decide_eq_false_iff_not]
        exact fun he => hd.1 (hn ▸ he ▸ List.mem_map_of_mem hm)
      rw [List.filter_cons_of_neg (by simp [hn]), hrest, List.head?_eq_getElem?]
      simp [hn]
    · rw [List.filter_cons_of_pos (by simp [hn])]
      simp [hn]

theorem memberOrder_nodup {r : ConsistentHashRing} (h : Canonical digest r) (key : String) :
    ((memberOrder digest r key).map Node.nodeId).Nodup := by
  rw [h.map_nodeId_memberOrder]
  exact List.firsts_nodup _ _

/-- After an addition the owner is the old one or the new node. -/
theorem head?_memberOrder_addNode {r : ConsistentHashRing} (h : Canonical digest r) {node : Node}
    (hc : r.nodes.contains node.nodeId = false) (key : String)
    (hne : (memberOrder digest (r.addNode digest node) key).head? ≠
      (memberOrder digest r key).head?) :
    (memberOrder digest (r.addNode digest node) key).head? = some node := by
  have h' := canonical_addNode h node
  have hf := memberOrder_addNode h hc key
  rw [hf] at hne
  have hid := (head?_filter_ne (memberOrder_nodup h' key)).1 hne.symm
  cases hl : memberOrder digest (r.addNode digest node) key with
  | nil => simp [hl] at hid
  | cons n l =>
    rw [hl, List.head?_cons, Option.map_some, Option.some.injEq] at hid
    have hm : n ∈ memberOrder digest (r.addNode digest node) key := hl ▸ List.mem_cons_self
    obtain ⟨k, -, hk⟩ := List.mem_filterMap.mp hm
    rw [← h'.keyed k n hk, hid, addNode_get? hc, if_pos rfl] at hk
    rw [List.head?_cons, hk]

/-- The order of a key loses a removed node and gains an added one, and the other
members keep their order; so the owner changes only away from the removed node, to the
key's second choice, or towards the added node. -/
theorem minimal_disruption (digest : String → ℕ) {v : ℤ} (hv : 1 ≤ v) {ops : List Op}
    (hw : ∀ n, Op.addNode n ∈ ops → 1 ≤ n.weight) (key : String) :
    ∃ before, order digest (run digest v ops) key = .ok before ∧
      before.Perm (run digest v ops).nodes.values ∧
      (∀ nodeId, order digest ((run digest v ops).removeNode digest nodeId) key =
        .ok (before.filter fun n => n.nodeId ≠ nodeId)) ∧
      (∀ node, 1 ≤ node.weight → (run digest v ops).nodes.contains node.nodeId = false →
        ∃ after, order digest ((run digest v ops).addNode digest node) key = .ok after ∧
          (after.filter fun n => n.nodeId ≠ node.nodeId) = before) ∧
      ∃ owner, getNode digest (run digest v ops) key = .ok owner ∧
        (∀ nodeId, ∃ owner',
          getNode digest ((run digest v ops).removeNode digest nodeId) key = .ok owner' ∧
          (owner' ≠ owner → owner.map Node.nodeId = some nodeId) ∧
          (owner.map Node.nodeId = some nodeId → owner' = before[1]?)) ∧
        ∀ node, (run digest v ops).nodes.contains node.nodeId = false → ∃ owner',
          getNode digest ((run digest v ops).addNode digest node) key = .ok owner' ∧
          (owner' ≠ owner → owner' = some node) := by
  have h := canonical_run digest v ops
  have hp := populated_run digest hv hw
  have hvn := run_vnodesPerNode digest v ops
  generalize run digest v ops = r at *
  refine ⟨memberOrder digest r key, h.order_eq hp key, h.memberOrder_perm hp key,
    fun nodeId => order_removeNode h hp nodeId key, ?_, (memberOrder digest r key).head?,
    h.getNode_eq_head? key, ?_, ?_⟩
  · intro node hweight hc
    have hpos : 0 < r.vnodesPerNode * node.weight := by
      rw [hvn]
      positivity
    exact ⟨_, (canonical_addNode h node).order_eq (hp.addNode hpos) key,
      (memberOrder_addNode h hc key).symm⟩
  · intro nodeId
    have h' := canonical_removeNode h nodeId
    have hm : memberOrder digest (r.removeNode digest nodeId) key =
        (memberOrder digest r key).filter fun n => n.nodeId ≠ nodeId :=
      Except.ok.inj ((h'.order_eq (hp.removeNode nodeId) key).symm.trans
        (order_removeNode h hp nodeId key))
    refine ⟨_, h'.getNode_eq_head? key, ?_⟩
    rw [hm]
    exact head?_filter_ne (memberOrder_nodup h key)
  · intro node hc
    exact ⟨_, (canonical_addNode h node).getNode_eq_head? key, head?_memberOrder_addNode h hc key⟩

theorem minimal_disruption_two_nodes :
    ∃ before, order String.length
        (run String.length 2 [.addNode ⟨"a", "h", 1, 1⟩, .addNode ⟨"b", "h", 2, 3⟩]) "k" =
          .ok before ∧ before.Perm [⟨"a", "h", 1, 1⟩, ⟨"b", "h", 2, 3⟩] := by
  have hw : ∀ n, Op.addNode n ∈ [.addNode ⟨"a", "h", 1, 1⟩, .addNode ⟨"b", "h", 2, 3⟩] →
      1 ≤ n.weight := by simp
  obtain ⟨before, ho, hperm, -⟩ := minimal_disruption String.length (by decide : (1 : ℤ) ≤ 2) hw "k"
  exact ⟨before, ho, hperm⟩

end ConsistentHashRing
end InferenceCluster
