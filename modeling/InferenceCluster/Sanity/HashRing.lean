import InferenceCluster.Spec.HashRing

/-! The ring is canonical after any history: its entry list is sorted and holds
exactly the virtual nodes of the current members, with multiplicity. A walk is then
the list of distinct owners met clockwise, and it never misses in `_nodes`. -/

namespace InferenceCluster
namespace ConsistentHashRing

variable {digest : String → ℕ}

structure Canonical (digest : String → ℕ) (r : ConsistentHashRing) : Prop where
  keyed : ∀ nodeId node, r.nodes.get? nodeId = some node → node.nodeId = nodeId
  sorted : r.ring.Pairwise (· ≤ ·)
  perm : r.ring.Perm (r.nodes.values.flatMap (vnodes digest r.vnodesPerNode))

theorem vnodes_owner {v : ℤ} {node : Node} {e : VNode} (he : e ∈ vnodes digest v node) :
    e.nodeId = node.nodeId := by
  obtain ⟨i, -, rfl⟩ := List.mem_map.mp he
  rfl

theorem canonical_init (v : ℤ) : Canonical digest (init v) :=
  ⟨fun _ _ h => by simp [init] at h, List.Pairwise.nil, by simp [init, PyDict.empty, PyDict.values]⟩

theorem foldl_insort (xs a : List VNode) (ha : a.Pairwise (· ≤ ·)) :
    (xs.foldl Bisect.insort a).Pairwise (· ≤ ·) ∧ (xs.foldl Bisect.insort a).Perm (a ++ xs) := by
  induction xs generalizing a with
  | nil => exact ⟨ha, by simp⟩
  | cons x xs ih =>
    obtain ⟨hs, hp⟩ := ih (Bisect.insort a x) (Bisect.insort_sorted x ha)
    refine ⟨hs, hp.trans ?_⟩
    exact ((Bisect.insort_perm a x ha).append_right xs).trans List.perm_middle.symm

theorem addNode_of_contains {r : ConsistentHashRing} {node : Node}
    (h : r.nodes.contains node.nodeId = true) : r.addNode digest node = r := if_pos h

theorem addNode_nodes {r : ConsistentHashRing} {node : Node}
    (h : r.nodes.contains node.nodeId = false) :
    (r.addNode digest node).nodes = r.nodes.set node.nodeId node := by
  simp [addNode, h]

@[simp] theorem addNode_vnodesPerNode (r : ConsistentHashRing) (node : Node) :
    (r.addNode digest node).vnodesPerNode = r.vnodesPerNode := by
  unfold addNode
  split_ifs <;> rfl

@[simp] theorem removeNode_vnodesPerNode (r : ConsistentHashRing) (nodeId : String) :
    (r.removeNode digest nodeId).vnodesPerNode = r.vnodesPerNode := by
  unfold removeNode
  split <;> rfl

theorem canonical_addNode {r : ConsistentHashRing} (h : Canonical digest r) (node : Node) :
    Canonical digest (r.addNode digest node) := by
  cases hc : r.nodes.contains node.nodeId with
  | true => rwa [addNode_of_contains hc]
  | false =>
    have hn := (r.nodes.contains_eq_false_iff node.nodeId).mp hc
    obtain ⟨hs, hp⟩ := foldl_insort (vnodes digest r.vnodesPerNode node) r.ring h.sorted
    simp only [addNode, hc, Bool.false_eq_true, if_false]
    refine ⟨?_, hs, hp.trans ?_⟩
    · intro nodeId n hget
      rw [PyDict.get?_set] at hget
      split_ifs at hget with heq
      · rw [← Option.some.inj hget, heq]
      · exact h.keyed nodeId n hget
    · simp only [PyDict.values, PyDict.items_set_of_get?_none node hn, List.map_append,
        List.flatMap_append, List.map_cons, List.map_nil, List.flatMap_cons, List.flatMap_nil,
        List.append_nil]
      exact h.perm.append_right _

/-- The members other than `nodeId` own exactly the entries that `remove_node` keeps. -/
theorem removeNode_ring {r : ConsistentHashRing} (h : Canonical digest r) (nodeId : String) :
    (r.removeNode digest nodeId).ring = r.ring.filter fun e => e.nodeId ≠ nodeId := by
  have hown : ∀ e ∈ r.ring, ∃ node, r.nodes.get? e.nodeId = some node ∧
      e ∈ vnodes digest r.vnodesPerNode node := by
    intro e he
    obtain ⟨node, hv, hm⟩ := List.mem_flatMap.mp (h.perm.mem_iff.mp he)
    obtain ⟨k, hk⟩ := (r.nodes.mem_values_iff node).mp hv
    rw [vnodes_owner hm, h.keyed k node hk]
    exact ⟨node, hk, hm⟩
  unfold removeNode
  cases hget : r.nodes.get? nodeId with
  | none =>
    refine (List.filter_eq_self.mpr fun e he => ?_).symm
    obtain ⟨node, hn, -⟩ := hown e he
    simp only [ne_eq, decide_not, Bool.not_eq_true', decide_eq_false_iff_not]
    rintro rfl
    rw [hget] at hn
    exact absurd hn (by simp)
  | some node =>
    have hid := h.keyed nodeId node hget
    refine List.filter_congr fun e he => ?_
    rw [decide_eq_decide, not_iff_not]
    constructor
    · intro hm
      obtain ⟨i, -, rfl⟩ := List.mem_map.mp hm
      rfl
    · rintro rfl
      obtain ⟨node', hn, hm⟩ := hown e he
      rw [hget] at hn
      rw [← Option.some.inj hn, vnodes, hid] at hm
      exact hm

theorem canonical_removeNode {r : ConsistentHashRing} (h : Canonical digest r) (nodeId : String) :
    Canonical digest (r.removeNode digest nodeId) := by
  have hring := removeNode_ring h nodeId
  cases hget : r.nodes.get? nodeId with
  | none =>
    have he : r.removeNode digest nodeId = r := by simp [removeNode, hget]
    rwa [he]
  | some node =>
    have hnodes : (r.removeNode digest nodeId).nodes = r.nodes.pop nodeId := by
      simp [removeNode, hget]
    refine ⟨?_, ?_, ?_⟩
    · intro k n hk
      rw [hnodes, PyDict.get?_pop] at hk
      split_ifs at hk
      exact h.keyed k n hk
    · rw [hring]
      exact h.sorted.filter _
    · rw [hring, removeNode_vnodesPerNode, hnodes]
      have hp := (PyDict.items_perm_pop hget).map Prod.snd
      have hv := h.perm.trans ((hp.flatMap_right (vnodes digest r.vnodesPerNode)))
      refine (hv.filter _).trans ?_
      rw [List.map_cons, List.flatMap_cons, List.filter_append]
      have hnone : (vnodes digest r.vnodesPerNode node).filter
          (fun e => decide (e.nodeId ≠ nodeId)) = [] := by
        refine List.filter_eq_nil_iff.mpr fun e he => ?_
        simp [vnodes_owner he, h.keyed nodeId node hget]
      have hall : ((r.nodes.pop nodeId).values.flatMap (vnodes digest r.vnodesPerNode)).filter
          (fun e => decide (e.nodeId ≠ nodeId)) =
          (r.nodes.pop nodeId).values.flatMap (vnodes digest r.vnodesPerNode) := by
        refine List.filter_eq_self.mpr fun e he => ?_
        obtain ⟨n, hn, hm⟩ := List.mem_flatMap.mp he
        obtain ⟨k, hk⟩ := ((r.nodes.pop nodeId).mem_values_iff n).mp hn
        rw [PyDict.get?_pop] at hk
        split_ifs at hk with hne
        simpa [vnodes_owner hm, h.keyed k n hk] using hne
      exact List.Perm.of_eq (congrArg₂ (· ++ ·) hnone hall)

theorem canonical_run (digest : String → ℕ) (v : ℤ) (ops : List Op) : Canonical digest (run digest v ops) := by
  induction ops using List.reverseRecOn with
  | nil => exact canonical_init v
  | append_singleton ops op ih =>
    rw [run, List.foldl_append]
    cases op with
    | addNode node => exact canonical_addNode ih node
    | removeNode nodeId => exact canonical_removeNode ih nodeId

theorem run_vnodesPerNode (digest : String → ℕ) (v : ℤ) (ops : List Op) : (run digest v ops).vnodesPerNode = v := by
  induction ops using List.reverseRecOn with
  | nil => rfl
  | append_singleton ops op ih =>
    rw [run, List.foldl_append]
    cases op with
    | addNode node => exact (addNode_vnodesPerNode _ node).trans ih
    | removeNode nodeId => exact (removeNode_vnodesPerNode _ nodeId).trans ih

theorem eq_of_sorted_perm {a b : List VNode} (ha : a.Pairwise (· ≤ ·))
    (hb : b.Pairwise (· ≤ ·)) (hp : a.Perm b) : a = b :=
  hp.eq_of_pairwise (fun _ _ _ _ => le_antisymm) ha hb

/-- Two canonical rings with the same members have the same entry list. -/
theorem Canonical.ring_eq {r r' : ConsistentHashRing} (h : Canonical digest r)
    (h' : Canonical digest r') (hv : r.vnodesPerNode = r'.vnodesPerNode)
    (hn : ∀ nodeId, r.nodes.get? nodeId = r'.nodes.get? nodeId) : r.ring = r'.ring := by
  have hp := ((PyDict.items_perm_of_get?_eq hn).map Prod.snd).flatMap_right
    (vnodes digest r.vnodesPerNode)
  refine eq_of_sorted_perm h.sorted h'.sorted (h.perm.trans (hp.trans ?_))
  rw [hv]
  exact h'.perm.symm

theorem Canonical.owner_mem {r : ConsistentHashRing} (h : Canonical digest r) {e : VNode}
    (he : e ∈ r.ring) : ∃ node, r.nodes.get? e.nodeId = some node := by
  obtain ⟨node, hv, hm⟩ := List.mem_flatMap.mp (h.perm.mem_iff.mp he)
  obtain ⟨k, hk⟩ := (r.nodes.mem_values_iff node).mp hv
  exact ⟨node, by rw [vnodes_owner hm, h.keyed k node hk, hk]⟩

theorem Canonical.mem_ring_of_member {r : ConsistentHashRing} (h : Canonical digest r)
    {nodeId : String} {node : Node} (hn : r.nodes.get? nodeId = some node)
    (hpos : 0 < r.vnodesPerNode * node.weight) : ∃ e ∈ r.ring, e.nodeId = nodeId := by
  refine ⟨vnode digest nodeId 0, h.perm.mem_iff.mpr (List.mem_flatMap.mpr ⟨node, ?_, ?_⟩), rfl⟩
  · exact (r.nodes.mem_values_iff node).mpr ⟨nodeId, hn⟩
  · rw [vnodes, h.keyed nodeId node hn]
    exact List.mem_map_of_mem (List.mem_range.mpr (by omega))

/-! ### Walks -/

/-- The node ids that the walk of `key` meets, in order and with repetition. -/
def met (digest : String → ℕ) (r : ConsistentHashRing) (key : String) : List String :=
  (r.ring.clockwise (r.start digest key)).map VNode.nodeId

/-- The distinct owners in the order of the walk. -/
def owners (digest : String → ℕ) (r : ConsistentHashRing) (key : String) : List String :=
  List.firsts [] (met digest r key)

theorem Canonical.start_le {r : ConsistentHashRing} (h : Canonical digest r) (key : String) :
    r.start digest key ≤ r.ring.length := by
  rw [start, Bisect.bisectLeft_eq h.sorted]
  exact List.length_filter_le _ _

/-- The walk reads the entries at or after the key's position, then the others. -/
theorem Canonical.met_eq {r : ConsistentHashRing} (h : Canonical digest r) (key : String) :
    met digest r key =
      (r.ring.filter (⟨hash digest key, ""⟩ ≤ ·) ++
        r.ring.filter (· < ⟨hash digest key, ""⟩)).map VNode.nodeId := by
  obtain ⟨ht, hd⟩ := Bisect.take_bisectLeft h.sorted (⟨hash digest key, ""⟩)
  rw [met, List.clockwise_eq (h.start_le key)]
  exact congrArg (List.map VNode.nodeId) (congrArg₂ (· ++ ·) hd ht)

theorem Canonical.mem_met {r : ConsistentHashRing} (h : Canonical digest r) (key nodeId : String) :
    nodeId ∈ met digest r key ↔ ∃ e ∈ r.ring, e.nodeId = nodeId := by
  rw [h.met_eq, List.mem_map]
  refine exists_congr fun e => and_congr_left fun _ => ?_
  simp only [List.mem_append, List.mem_filter, decide_eq_true_eq, ← and_or_left]
  exact and_iff_left (le_or_gt _ _)

theorem Canonical.met_filter {r r' : ConsistentHashRing} (h : Canonical digest r)
    (h' : Canonical digest r') (nodeId key : String)
    (hr : r'.ring = r.ring.filter fun e => e.nodeId ≠ nodeId) :
    met digest r' key = (met digest r key).filter (· ≠ nodeId) := by
  rw [h.met_eq, h'.met_eq, hr, List.filter_map, List.filter_append]
  simp only [List.filter_filter, Function.comp_def, Bool.and_comm]

theorem walk_eq {nodes : PyDict String Node} {n : ℕ} {ids seen : List String}
    {result : List Node} (h : ∀ nodeId ∈ ids, ∃ node, nodes.get? nodeId = some node)
    (hn : result.length < n) :
    walk nodes n ids seen result =
      .ok (result ++ ((List.firsts seen ids).take (n - result.length)).filterMap nodes.get?) := by
  induction ids generalizing seen result with
  | nil => simp [walk, List.firsts]
  | cons nodeId ids ih =>
    have hids : ∀ k ∈ ids, ∃ node, nodes.get? k = some node :=
      fun k hk => h k (List.mem_cons_of_mem _ hk)
    by_cases hs : nodeId ∈ seen
    · simp only [walk, hs, if_true, List.firsts, if_neg hn.ne]
      exact ih hids hn
    · obtain ⟨node, hget⟩ := h nodeId List.mem_cons_self
      obtain ⟨m, hm⟩ : ∃ m, n - result.length = m + 1 := ⟨n - result.length - 1, by omega⟩
      simp only [walk, hs, if_false, PyDict.getItem_of_get? hget, List.firsts, hm,
        List.take_succ_cons, List.filterMap_cons, hget]
      change (if (result ++ [node]).length = n then _ else _) = _
      split_ifs with hlen
      · rw [List.length_append, List.length_singleton] at hlen
        obtain rfl : m = 0 := by omega
        simp
      · rw [List.length_append, List.length_singleton] at hlen
        rw [ih hids (by rw [List.length_append, List.length_singleton]; omega),
          List.length_append, List.length_singleton, show n - (result.length + 1) = m by omega]
        simp

/-- A lookup answers with the first `n` distinct owners met. -/
theorem Canonical.getNodesForKey_eq {r : ConsistentHashRing} (h : Canonical digest r)
    (key : String) {n : ℕ} (hn : 0 < n) :
    r.getNodesForKey digest key n =
      .ok (((owners digest r key).take n).filterMap r.nodes.get?) := by
  unfold getNodesForKey
  split_ifs with he
  · simp [owners, met, he, List.clockwise, List.firsts]
  · rw [walk_eq (fun nodeId hm => ?_) (by simpa using hn)]
    · simp [owners, met]
    · obtain ⟨e, hr, rfl⟩ := (h.mem_met key nodeId).mp hm
      exact h.owner_mem hr

theorem Canonical.getNode_eq {r : ConsistentHashRing} (h : Canonical digest r) (key : String) :
    r.getNode digest key = .ok ((owners digest r key).head?.bind r.nodes.get?) := by
  have hhead : (owners digest r key).head? =
      r.ring[if r.ring.length ≤ r.start digest key then 0 else r.start digest key]?.map
        VNode.nodeId := by
    rw [owners, List.head?_firsts, met, List.head?_map, List.head?_clockwise (h.start_le key)]
  unfold getNode
  split
  · rename_i hnil
    simp [hhead, hnil]
  · rename_i e rest hcons
    simp only [hhead]
    generalize hi : (if r.ring.length ≤ r.start digest key then 0 else r.start digest key) = i
    have hlt : i < r.ring.length := by
      have hpos : 0 < r.ring.length := by rw [hcons]; exact Nat.succ_pos _
      split_ifs at hi <;> omega
    obtain ⟨node, hn⟩ := h.owner_mem (List.getElem_mem hlt)
    rw [List.getD_eq_getElem?_getD, List.getElem?_eq_getElem hlt, Option.getD_some,
      PyDict.getItem_of_get? hn, Option.map_some, Option.bind_some, hn]
    rfl

/-! ### The order of all members -/

/-- Every member owns at least one virtual node. -/
def Populated (r : ConsistentHashRing) : Prop :=
  ∀ nodeId node, r.nodes.get? nodeId = some node → 0 < r.vnodesPerNode * node.weight

/-- The members in the order of the walk of `key`. -/
def memberOrder (digest : String → ℕ) (r : ConsistentHashRing) (key : String) : List Node :=
  (owners digest r key).filterMap r.nodes.get?

theorem Canonical.mem_owners {r : ConsistentHashRing} (h : Canonical digest r) {key nodeId : String}
    (hm : nodeId ∈ owners digest r key) : ∃ node, r.nodes.get? nodeId = some node := by
  obtain ⟨e, he, rfl⟩ := (h.mem_met key nodeId).mp (List.mem_firsts.mp hm).1
  exact h.owner_mem he

theorem Canonical.owners_eq_nil {r : ConsistentHashRing} (h : Canonical digest r) {key : String} :
    owners digest r key = [] ↔ r.ring = [] := by
  constructor
  · intro ho
    refine List.eq_nil_iff_forall_not_mem.mpr fun e he => ?_
    have hm : e.nodeId ∈ owners digest r key :=
      List.mem_firsts.mpr ⟨(h.mem_met key e.nodeId).mpr ⟨e, he, rfl⟩, List.not_mem_nil⟩
    rw [ho] at hm
    exact List.not_mem_nil hm
  · intro hring
    simp [owners, met, hring, List.clockwise, List.firsts]

theorem Canonical.owners_perm {r : ConsistentHashRing} (h : Canonical digest r)
    (hp : r.Populated) (key : String) : (owners digest r key).Perm r.nodes.keys := by
  refine List.firsts_perm r.nodes.nodup fun nodeId => ?_
  rw [h.mem_met]
  refine (r.nodes.mem_keys_iff nodeId).trans ⟨?_, ?_⟩
  · rintro ⟨node, hn⟩
    exact ⟨h.mem_ring_of_member hn (hp nodeId node hn), List.not_mem_nil⟩
  · rintro ⟨⟨e, he, rfl⟩, -⟩
    exact h.owner_mem he

theorem Canonical.order_eq {r : ConsistentHashRing} (h : Canonical digest r) (hp : r.Populated)
    (key : String) : order digest r key = .ok (memberOrder digest r key) := by
  have hlen : (owners digest r key).length = r.nodes.size := by
    rw [(h.owners_perm hp key).length_eq, PyDict.keys, List.length_map, PyDict.size]
  unfold order memberOrder
  rcases Nat.eq_zero_or_pos r.nodes.size with hz | hpos
  · have hnil := List.length_eq_zero_iff.mp (hlen.trans hz)
    rw [hnil]
    simp [getNodesForKey, h.owners_eq_nil.mp hnil]
  · rw [h.getNodesForKey_eq key hpos, ← hlen, List.take_length]

theorem Canonical.memberOrder_perm {r : ConsistentHashRing} (h : Canonical digest r)
    (hp : r.Populated) (key : String) : (memberOrder digest r key).Perm r.nodes.values := by
  rw [← r.nodes.filterMap_get?_keys]
  exact (h.owners_perm hp key).filterMap _

/-- Members are stored under their own node ids. -/
theorem Canonical.map_nodeId {r : ConsistentHashRing} (h : Canonical digest r) {l : List String}
    (hl : ∀ k ∈ l, ∃ node, r.nodes.get? k = some node) :
    (l.filterMap r.nodes.get?).map Node.nodeId = l := by
  induction l with
  | nil => rfl
  | cons k l ih =>
    obtain ⟨node, hn⟩ := hl k List.mem_cons_self
    rw [List.filterMap_cons, hn]
    simp only [List.map_cons, h.keyed k node hn, ih fun j hj => hl j (List.mem_cons_of_mem k hj)]

theorem Canonical.map_nodeId_memberOrder {r : ConsistentHashRing} (h : Canonical digest r)
    (key : String) : (memberOrder digest r key).map Node.nodeId = owners digest r key :=
  h.map_nodeId fun _ hk => h.mem_owners hk

theorem Canonical.getNode_eq_head? {r : ConsistentHashRing} (h : Canonical digest r)
    (key : String) : r.getNode digest key = .ok (memberOrder digest r key).head? := by
  rw [h.getNode_eq, memberOrder]
  cases ho : owners digest r key with
  | nil => rfl
  | cons k l =>
    have hk : k ∈ owners digest r key := ho ▸ List.mem_cons_self
    obtain ⟨node, hn⟩ := h.mem_owners hk
    simp [hn]

/-- Rings that agree away from `nodeId` walk the other members in the same order. -/
theorem memberOrder_filter {r r' : ConsistentHashRing} (h : Canonical digest r)
    (h' : Canonical digest r') {nodeId : String}
    (hring : r'.ring = r.ring.filter fun e => e.nodeId ≠ nodeId)
    (hnodes : ∀ k, k ≠ nodeId → r'.nodes.get? k = r.nodes.get? k) (key : String) :
    memberOrder digest r' key = (memberOrder digest r key).filter fun n => n.nodeId ≠ nodeId := by
  have ho : owners digest r' key = (owners digest r key).filter (· ≠ nodeId) := by
    rw [owners, h.met_filter h' nodeId key hring, List.firsts_filter, owners]
  rw [memberOrder, ho, List.filterMap_filter, memberOrder, List.filter_filterMap]
  refine List.filterMap_congr fun k hk => ?_
  obtain ⟨node, hn⟩ := h.mem_owners hk
  have hid := h.keyed k node hn
  by_cases hkn : k = nodeId
  · subst hkn
    simp [hn, hid, Option.filter]
  · simp [hkn, hnodes k hkn, hn, hid, Option.filter]

theorem removeNode_get? (r : ConsistentHashRing) (nodeId k : String) :
    (r.removeNode digest nodeId).nodes.get? k = if k = nodeId then none else r.nodes.get? k := by
  unfold removeNode
  cases hget : r.nodes.get? nodeId with
  | none =>
    split_ifs with hk
    · rw [hk, hget]
    · rfl
  | some node => exact PyDict.get?_pop _ _ _

theorem addNode_get? {r : ConsistentHashRing} {node : Node}
    (h : r.nodes.contains node.nodeId = false) (k : String) :
    (r.addNode digest node).nodes.get? k =
      if k = node.nodeId then some node else r.nodes.get? k := by
  rw [addNode_nodes h, PyDict.get?_set]

/-- Adding a new node and removing it again gives the entry list back. -/
theorem addNode_ring_filter {r : ConsistentHashRing} (h : Canonical digest r) {node : Node}
    (hc : r.nodes.contains node.nodeId = false) :
    r.ring = (r.addNode digest node).ring.filter fun e => e.nodeId ≠ node.nodeId := by
  have ha := canonical_addNode h node
  rw [← removeNode_ring ha]
  refine h.ring_eq (canonical_removeNode ha _) (by simp) fun k => ?_
  rw [removeNode_get?, addNode_get? hc]
  split_ifs with hk
  · rw [hk, ← PyDict.contains_eq_false_iff, hc]
  · rfl

/-- Every member was added by some call of the history. -/
theorem run_member {v : ℤ} {ops : List Op} {nodeId : String} {node : Node}
    (h : (run digest v ops).nodes.get? nodeId = some node) : Op.addNode node ∈ ops := by
  induction ops using List.reverseRecOn with
  | nil => simp [run, init] at h
  | append_singleton ops op ih =>
    rw [run, List.foldl_append] at h
    rw [List.mem_append, List.mem_singleton]
    cases op with
    | addNode n =>
      change ((run digest v ops).addNode digest n).nodes.get? nodeId = some node at h
      cases hc : (run digest v ops).nodes.contains n.nodeId with
      | true =>
        rw [addNode_of_contains hc] at h
        exact Or.inl (ih h)
      | false =>
        rw [addNode_get? hc] at h
        split_ifs at h
        · exact Or.inr (congrArg Op.addNode (Option.some.inj h).symm)
        · exact Or.inl (ih h)
    | removeNode k =>
      change ((run digest v ops).removeNode digest k).nodes.get? nodeId = some node at h
      rw [removeNode_get?] at h
      split_ifs at h
      exact Or.inl (ih h)

theorem populated_run (digest : String → ℕ) {v : ℤ} (hv : 1 ≤ v) {ops : List Op}
    (hw : ∀ n, Op.addNode n ∈ ops → 1 ≤ n.weight) : (run digest v ops).Populated := by
  intro nodeId node h
  rw [run_vnodesPerNode]
  have := hw node (run_member h)
  positivity

theorem Populated.removeNode {r : ConsistentHashRing} (h : r.Populated) (nodeId : String) :
    (r.removeNode digest nodeId).Populated := by
  intro k node hk
  rw [removeNode_get?] at hk
  split_ifs at hk
  rw [removeNode_vnodesPerNode]
  exact h k node hk

theorem Populated.addNode {r : ConsistentHashRing} (h : r.Populated) {node : Node}
    (hp : 0 < r.vnodesPerNode * node.weight) : (r.addNode digest node).Populated := by
  cases hc : r.nodes.contains node.nodeId with
  | true => rwa [addNode_of_contains hc]
  | false =>
    intro k n hk
    rw [addNode_get? hc] at hk
    rw [addNode_vnodesPerNode]
    split_ifs at hk
    · rwa [← Option.some.inj hk]
    · exact h k n hk

end ConsistentHashRing
end InferenceCluster
