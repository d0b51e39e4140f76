import InferenceCluster.Sanity.HashRing
import Mathlib.Data.List.Sort

/-! A lookup walks the virtual nodes of the members clockwise from the key: in the order of
the distance from the key's position modulo `2^32`, then of the node id. -/

namespace InferenceCluster
namespace ConsistentHashRing

variable {digest : String → ℕ}

/-- How far `e` is clockwise from `key`. -/
def distance (digest : String → ℕ) (key : String) (e : VNode) : ℤ :=
  ((e.pos : ℤ) - hash digest key) % 2 ^ 32

/-- Nearer to `key`, or as near with a node id that is not greater. -/
def Nearer (digest : String → ℕ) (key : String) (a b : VNode) : Prop :=
  toLex (distance digest key a, a.nodeId) ≤ toLex (distance digest key b, b.nodeId)

instance (key : String) : DecidableRel (Nearer digest key) :=
  fun _ _ => inferInstanceAs (Decidable (_ ≤ _))

def virtualNodes (digest : String → ℕ) (r : ConsistentHashRing) : List VNode :=
  r.nodes.values.flatMap (vnodes digest r.vnodesPerNode)

/-- The owners of the virtual nodes, nearest first, each once. -/
def clockwiseOwners (digest : String → ℕ) (r : ConsistentHashRing) (key : String) : List String :=
  List.firsts [] (((virtualNodes digest r).mergeSort fun a b =>
    decide (Nearer digest key a b)).map VNode.nodeId)

theorem vnode_le_iff {a b : VNode} :
    a ≤ b ↔ a.pos < b.pos ∨ a.pos = b.pos ∧ a.nodeId ≤ b.nodeId :=
  Prod.Lex.toLex_le_toLex

theorem nearer_iff {key : String} {a b : VNode} :
    Nearer digest key a b ↔ distance digest key a < distance digest key b ∨
      distance digest key a = distance digest key b ∧ a.nodeId ≤ b.nodeId :=
  Prod.Lex.toLex_le_toLex

/-- The empty node id of a lookup is before every other at its position. -/
theorem lookup_le_iff {pos : ℕ} {e : VNode} : (⟨pos, ""⟩ : VNode) ≤ e ↔ pos ≤ e.pos := by
  have hempty : "" ≤ e.nodeId :=
    not_lt.mp fun h => List.not_lt_nil _ (String.lt_iff_toList_lt.mp h)
  rw [vnode_le_iff]
  exact ⟨fun h => h.elim le_of_lt fun h => h.1.le,
    fun h => (lt_or_eq_of_le h).imp_right fun h => ⟨h, hempty⟩⟩

theorem Canonical.pos_lt {r : ConsistentHashRing} (h : Canonical digest r) {e : VNode}
    (he : e ∈ r.ring) : e.pos < 2 ^ 32 := by
  obtain ⟨node, -, hm⟩ := List.mem_flatMap.mp (h.perm.mem_iff.mp he)
  obtain ⟨i, -, rfl⟩ := List.mem_map.mp hm
  exact Nat.mod_lt _ (by decide)

theorem distance_ahead {key : String} {e : VNode} (he : e.pos < 2 ^ 32)
    (hle : hash digest key ≤ e.pos) :
    distance digest key e = e.pos - hash digest key := by
  unfold distance
  exact Int.emod_eq_of_lt (by omega) (by omega)

theorem distance_behind {key : String} {e : VNode} (hlt : e.pos < hash digest key) :
    distance digest key e = e.pos - hash digest key + 2 ^ 32 := by
  have hhash : hash digest key < 2 ^ 32 := Nat.mod_lt _ (by decide)
  unfold distance
  rw [← Int.add_emod_right]
  exact Int.emod_eq_of_lt (by omega) (by omega)

theorem Canonical.nearer_antisymm {r : ConsistentHashRing} (h : Canonical digest r) {key : String}
    {a b : VNode} (ha : a ∈ r.ring) (hb : b ∈ r.ring) (hab : Nearer digest key a b)
    (hba : Nearer digest key b a) : a = b := by
  have hkey := Prod.mk.inj (toLex.injective (le_antisymm hab hba))
  have hpos : a.pos = b.pos := by
    have h₁ := h.pos_lt ha
    have h₂ := h.pos_lt hb
    have hd := hkey.1
    rcases le_or_gt (hash digest key) a.pos with ha' | ha' <;>
      rcases le_or_gt (hash digest key) b.pos with hb' | hb'
    all_goals
      simp only [distance_ahead, distance_behind, *] at hd
      omega
  cases a
  cases b
  simp_all

/-- The walk through the ring's list meets the nearer entries first. -/
theorem Canonical.walk_sorted {r : ConsistentHashRing} (h : Canonical digest r) (key : String) :
    (r.ring.filter (⟨hash digest key, ""⟩ ≤ ·) ++
      r.ring.filter (· < ⟨hash digest key, ""⟩)).Pairwise (Nearer digest key) := by
  have hahead : ∀ e ∈ r.ring.filter (⟨hash digest key, ""⟩ ≤ ·),
      distance digest key e = e.pos - hash digest key ∧ e.pos < 2 ^ 32 := by
    intro e he
    obtain ⟨hm, hle⟩ := List.mem_filter.mp he
    rw [decide_eq_true_eq, lookup_le_iff] at hle
    exact ⟨distance_ahead (h.pos_lt hm) hle, h.pos_lt hm⟩
  have hbehind : ∀ e ∈ r.ring.filter (· < ⟨hash digest key, ""⟩),
      distance digest key e = e.pos - hash digest key + 2 ^ 32 := by
    intro e he
    obtain ⟨-, hlt⟩ := List.mem_filter.mp he
    rw [decide_eq_true_eq, ← not_le, lookup_le_iff, not_le] at hlt
    exact distance_behind hlt
  refine List.pairwise_append.mpr ⟨?_, ?_, ?_⟩
  · refine (h.sorted.filter _).imp_of_mem fun {a b} ha hb hab => ?_
    rw [nearer_iff, (hahead a ha).1, (hahead b hb).1]
    rcases vnode_le_iff.mp hab with hlt | ⟨heq, hid⟩
    · exact .inl (by omega)
    · exact .inr ⟨by omega, hid⟩
  · refine (h.sorted.filter _).imp_of_mem fun {a b} ha hb hab => ?_
    rw [nearer_iff, hbehind a ha, hbehind b hb]
    rcases vnode_le_iff.mp hab with hlt | ⟨heq, hid⟩
    · exact .inl (by omega)
    · exact .inr ⟨by omega, hid⟩
  · -- an entry behind the key is a whole turn away
    intro a ha b hb
    obtain ⟨hda, hlt⟩ := hahead a ha
    rw [nearer_iff, hda, hbehind b hb]
    exact .inl (by omega)

theorem Canonical.owners_eq {r : ConsistentHashRing} (h : Canonical digest r) (key : String) :
    owners digest r key = clockwiseOwners digest r key := by
  have htrans : ∀ a b c : VNode, decide (Nearer digest key a b) = true →
      decide (Nearer digest key b c) = true → decide (Nearer digest key a c) = true := by
    intro a b c hab hbc
    rw [decide_eq_true_eq] at hab hbc ⊢
    exact le_trans hab hbc
  have htotal : ∀ a b : VNode,
      (decide (Nearer digest key a b) || decide (Nearer digest key b a)) = true := by
    intro a b
    rw [Bool.or_eq_true, decide_eq_true_eq, decide_eq_true_eq]
    exact le_total _ _
  have hsort := (List.pairwise_mergeSort htrans htotal (virtualNodes digest r)).imp
    fun hab => of_decide_eq_true hab
  have hsplit : (r.ring.filter (⟨hash digest key, ""⟩ ≤ ·) ++
      r.ring.filter (· < ⟨hash digest key, ""⟩)).Perm r.ring := by
    have hp := List.filter_append_perm (fun e => decide (⟨hash digest key, ""⟩ ≤ e)) r.ring
    simpa only [← decide_not, not_le] using hp
  have hperm := hsplit.trans (h.perm.trans (List.mergeSort_perm (virtualNodes digest r)
    fun a b => decide (Nearer digest key a b)).symm)
  rw [owners, h.met_eq, clockwiseOwners]
  refine congrArg (fun l => List.firsts [] (l.map VNode.nodeId))
    (hperm.eq_of_pairwise (fun a b ha hb hab hba => ?_) (h.walk_sorted key) hsort)
  refine h.nearer_antisymm (hsplit.mem_iff.mp ha) ?_ hab hba
  exact hsplit.mem_iff.mp (hperm.mem_iff.mpr hb)

/-- `get_nodes_for_key` answers with the first owners of the walk, and `get_node` with its
head, on every ring that calls can build. -/
theorem lookup_clockwise (digest : String → ℕ) (v : ℤ) (ops : List Op) (key : String) :
    let r := run digest v ops
    r.ring.Perm (virtualNodes digest r) ∧
      (∀ n, 0 < n → ∃ result, r.getNodesForKey digest key n = .ok result ∧
        result.map Node.nodeId = (clockwiseOwners digest r key).take n ∧
        (result.map Node.nodeId).Nodup ∧
        (∀ node ∈ result, r.nodes.get? node.nodeId = some node) ∧
        r.getNode digest key = .ok result.head?) ∧
      (r.getNode digest key = .ok none ↔ r.ring = []) := by
  intro r
  have h := canonical_run digest v ops
  have hmember : ∀ n, ∀ k ∈ (owners digest r key).take n, ∃ node, r.nodes.get? k = some node :=
    fun n k hk => h.mem_owners (List.mem_of_mem_take hk)
  refine ⟨h.perm, fun n hn => ⟨_, h.getNodesForKey_eq key hn, ?_, ?_, ?_, ?_⟩, ?_⟩
  · rw [h.map_nodeId (hmember n), h.owners_eq]
  · rw [h.map_nodeId (hmember n)]
    exact (List.firsts_nodup _ _).sublist (List.take_sublist _ _)
  · intro node hnode
    obtain ⟨k, -, hk⟩ := List.mem_filterMap.mp hnode
    rw [h.keyed k node hk, hk]
  · rw [h.getNode_eq_head?, memberOrder]
    obtain ⟨n, rfl⟩ := Nat.exists_eq_add_one_of_ne_zero hn.ne'
    cases ho : owners digest r key with
    | nil => rfl
    | cons k l =>
      obtain ⟨node, hk⟩ := h.mem_owners (ho ▸ List.mem_cons_self : k ∈ owners digest r key)
      simp [hk]
  · rw [h.getNode_eq_head?, Except.ok.injEq, List.head?_eq_none_iff]
    rw [← List.map_eq_nil_iff (f := Node.nodeId), h.map_nodeId_memberOrder]
    exact h.owners_eq_nil

end ConsistentHashRing
end InferenceCluster
