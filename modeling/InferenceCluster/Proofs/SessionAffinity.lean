import InferenceCluster.Proofs.FailoverRouting
import InferenceCluster.Proofs.MinimalDisruption

/-! Session affinity over time. Two rings walk their common members in one order, so a session
leaves a healthy worker only for one that has joined or recovered in between. -/

namespace InferenceCluster

variable {digest : String → ℕ}

namespace ConsistentHashRing

/-! ### Common members -/

theorem Canonical.values_nodup {r : ConsistentHashRing} (h : Canonical digest r) :
    r.nodes.values.Nodup := by
  refine List.Nodup.of_map Node.nodeId ?_
  rw [← r.nodes.filterMap_get?_keys, h.map_nodeId fun k hk => (PyDict.mem_keys_iff _ _).mp hk]
  exact r.nodes.nodup

theorem Canonical.mem_values_iff {r : ConsistentHashRing} (h : Canonical digest r) (node : Node) :
    node ∈ r.nodes.values ↔ r.nodes.get? node.nodeId = some node := by
  rw [PyDict.mem_values_iff]
  constructor
  · rintro ⟨k, hk⟩
    rwa [h.keyed k node hk]
  · exact fun hn => ⟨_, hn⟩

/-- The members of one ring that are members of the other. -/
def common (r r' : ConsistentHashRing) (nodeId : String) : Bool :=
  r.nodes.contains nodeId && r'.nodes.contains nodeId

/-- No node id stands for two nodes. -/
def Consistent (r r' : ConsistentHashRing) : Prop :=
  ∀ k n n', r.nodes.get? k = some n → r'.nodes.get? k = some n' → n = n'

theorem flatMap_vnodes_filter (v : ℤ) (nodes : List Node) (p : String → Bool) :
    (nodes.flatMap (vnodes digest v)).filter (fun e => p e.nodeId) =
      (nodes.filter fun n => p n.nodeId).flatMap (vnodes digest v) := by
  induction nodes with
  | nil => rfl
  | cons n nodes ih =>
    rw [List.flatMap_cons, List.filter_append, ih, List.filter_cons]
    by_cases hp : p n.nodeId = true
    · rw [if_pos hp, List.flatMap_cons, List.filter_eq_self.mpr]
      exact fun e he => by rw [vnodes_owner he, hp]
    · rw [if_neg hp, List.filter_eq_nil_iff.mpr, List.nil_append]
      exact fun e he => by rw [vnodes_owner he]; exact hp

theorem common_ring {r r' : ConsistentHashRing} (h : Canonical digest r)
    (h' : Canonical digest r') (hv : r.vnodesPerNode = r'.vnodesPerNode)
    (hagree : Consistent r r') : r.ring.filter (fun e => common r r' e.nodeId) =
      r'.ring.filter (fun e => common r r' e.nodeId) := by
  refine eq_of_sorted_perm (h.sorted.filter _) (h'.sorted.filter _) ?_
  refine (h.perm.filter _).trans (.trans ?_ (h'.perm.filter _).symm)
  rw [flatMap_vnodes_filter, flatMap_vnodes_filter, hv]
  refine List.Perm.flatMap_right _ ?_
  refine (List.perm_ext_iff_of_nodup (h.values_nodup.filter _) (h'.values_nodup.filter _)).mpr ?_
  intro n
  rw [List.mem_filter, List.mem_filter, h.mem_values_iff, h'.mem_values_iff]
  refine and_congr_left fun hc => ?_
  obtain ⟨hr, hr'⟩ := Bool.and_eq_true_iff.mp hc
  obtain ⟨m, hm⟩ := (PyDict.contains_iff _ _).mp hr
  obtain ⟨m', hm'⟩ := (PyDict.contains_iff _ _).mp hr'
  rw [hm, hm', hagree _ m m' hm hm']

theorem common_order {r r' : ConsistentHashRing} (h : Canonical digest r)
    (h' : Canonical digest r') (hv : r.vnodesPerNode = r'.vnodesPerNode)
    (hagree : Consistent r r') (key : String) :
    (memberOrder digest r key).filter (fun n => common r r' n.nodeId) =
      (memberOrder digest r' key).filter (fun n => common r r' n.nodeId) := by
  have howners : (owners digest r key).filter (common r r') =
      (owners digest r' key).filter (common r r') := by
    have hring := common_ring h h' hv hagree
    rw [owners, owners, ← List.firsts_filter, ← List.firsts_filter, h.met_eq, h'.met_eq,
      List.filter_map, List.filter_map, List.filter_append, List.filter_append]
    simp only [List.filter_filter, Function.comp_def, Bool.and_comm (common r r' _)]
    simp only [← List.filter_filter, hring]
  have hfilter : ∀ {q : ConsistentHashRing}, Canonical digest q →
      (memberOrder digest q key).filter (fun n => common r r' n.nodeId) =
        ((owners digest q key).filter (common r r')).filterMap q.nodes.get? := by
    intro q hq
    rw [memberOrder, List.filter_filterMap, List.filterMap_filter]
    refine List.filterMap_congr fun k hk => ?_
    obtain ⟨node, hn⟩ := hq.mem_owners hk
    by_cases hc : common r r' k = true <;> simp [hn, hq.keyed k node hn, hc, Option.filter]
  rw [hfilter h, hfilter h', howners]
  refine List.filterMap_congr fun k hk => ?_
  obtain ⟨hr, hr'⟩ := Bool.and_eq_true_iff.mp (List.mem_filter.mp hk).2
  obtain ⟨m, hm⟩ := (PyDict.contains_iff _ _).mp hr
  obtain ⟨m', hm'⟩ := (PyDict.contains_iff _ _).mp hr'
  rw [hm, hm', hagree _ m m' hm hm']

end ConsistentHashRing

open ConsistentHashRing

theorem Routable.eq_of_nodeId_eq {n m : Node} (hn : Routable n) (hm : Routable m)
    (h : n.nodeId = m.nodeId) : n = m := by
  have hbaseline : ∀ {n : Node}, n ∈ workerNodes → isBaseline n.nodeId = true := fun {n} hn =>
    List.any_eq_true.mpr ⟨n, hn, by simp⟩
  cases hn with
  | static hn =>
    cases hm with
    | static hm =>
      simp only [workerNodes, List.mem_cons, List.not_mem_nil, or_false] at hn hm
      rcases hn with rfl | rfl <;> rcases hm with rfl | rfl <;> simp at h ⊢
    | @auto port =>
      have hn := hbaseline hn
      rw [h, autoId_not_baseline] at hn
      cases hn
  | @auto port =>
    cases hm with
    | static hm =>
      have hm := hbaseline hm
      rw [← h, autoId_not_baseline] at hm
      cases hm
    | @auto port' =>
      obtain rfl := autoId_injective h
      rfl

section Choice

variable {α : Type} {c p q : α → Bool} {x : α} {l l' : List α} {k : ℕ}

/-- Of two lists that keep the same elements in the same order, the kept ones before a common
one are the same. -/
theorem filter_before {a a' b b' : List α} (hd : (a ++ x :: b).Nodup) (hx : c x = true)
    (h : (a ++ x :: b).filter c = (a' ++ x :: b').filter c) : a.filter c = a'.filter c := by
  obtain ⟨-, hcons, hdisj⟩ := List.nodup_append.mp hd
  have ha : x ∉ a.filter c := fun hm => hdisj x (List.mem_of_mem_filter hm) x List.mem_cons_self rfl
  have hb : x ∉ b.filter c := fun hm =>
    (List.nodup_cons.mp hcons).1 (List.mem_of_mem_filter hm)
  simp only [List.filter_append, List.filter_cons_of_pos hx] at h
  exact ((List.append_cons_inj_of_notMem ha hb).mp h).1

/-- The choice among the first `k` of a list, after the list and the condition have changed: it
stays with an element that is still there and still fit, or falls on one that is not common to
the lists or was not fit before. -/
theorem find?_take_changed (hd : l.Nodup) (hcommon : l.filter c = l'.filter c)
    (hfind : (l.take k).find? p = some x) (hx : c x = true) (hmem : x ∈ l') (hq : q x = true) :
    (∃ y ∈ l', (l'.take k).find? q = some y ∧ (y = x ∨ c y = false ∨ p y = false)) ∨
    (l'.take k).find? q = none ∧ ∃ y ∈ l', c y = false := by
  obtain ⟨-, a, b, htake, ha⟩ := List.find?_eq_some_iff_append.mp hfind
  have hl : l = a ++ x :: (b ++ l.drop k) := by
    rw [← List.cons_append, ← List.append_assoc, ← htake, List.take_append_drop]
  have hlen : a.length < k := by
    have hle := List.length_take_le k l
    rw [htake, List.length_append, List.length_cons] at hle
    omega
  obtain ⟨a', b', rfl⟩ := List.append_of_mem hmem
  have hbefore : a.filter c = a'.filter c := by
    rw [hl] at hd hcommon
    exact filter_before hd hx hcommon
  rw [List.take_append, List.find?_append]
  cases hfirst : (a'.take k).find? q with
  | some y =>
    have hy : y ∈ a' := List.mem_of_mem_take (List.mem_of_find?_eq_some hfirst)
    refine .inl ⟨y, List.mem_append_left _ hy, by simp, ?_⟩
    by_cases hc : c y = true
    · have hya : y ∈ a.filter c := hbefore ▸ List.mem_filter.mpr ⟨hy, hc⟩
      exact .inr (.inr (by simpa using ha y (List.mem_of_mem_filter hya)))
    · exact .inr (.inl (Bool.eq_false_iff.mpr hc))
  | none =>
    rcases Nat.lt_or_ge a'.length k with hlt | hge
    · refine .inl ⟨x, hmem, ?_, .inl rfl⟩
      obtain ⟨m, hm⟩ : ∃ m, k - a'.length = m + 1 := ⟨k - a'.length - 1, by omega⟩
      simp [hm, hq]
    · refine .inr ⟨by simp [Nat.sub_eq_zero_of_le hge], ?_⟩
      by_contra hall
      push Not at hall
      have hkeep : a'.filter c = a' := List.filter_eq_self.mpr fun y hy => by
        simpa using hall y (List.mem_append_left _ hy)
      have hle := List.length_filter_le c a
      rw [hbefore, hkeep] at hle
      omega

end Choice

namespace RouterSystem

variable {K : Type} [Zero K] {s t : RouterSystem K}

theorem consistent_of_reachable (hs : (machine digest K).Reachable s)
    (ht : (machine digest K).Reachable t) : Consistent s.ring t.ring := by
  intro k n n' hn hn'
  refine ((hosts_of_reachable hs).member k n hn).eq_of_nodeId_eq
    ((hosts_of_reachable ht).member k n' hn') ?_
  rw [(reachable_wellFormed hs).canonical.keyed k n hn,
    (reachable_wellFormed ht).canonical.keyed k n' hn']

theorem mem_memberOrder_iff {r : ConsistentHashRing} (h : r.WellFormed digest)
    (sessionId : String) (node : Node) :
    node ∈ memberOrder digest r sessionId ↔ r.nodes.get? node.nodeId = some node := by
  rw [(h.canonical.memberOrder_perm h.populated sessionId).mem_iff, h.canonical.mem_values_iff]

/-- What `route` returns is a healthy member. -/
theorem of_route {ring : ConsistentHashRing} (h : ring.WellFormed digest)
    {monitor : HeartbeatMonitor} {sessionId : String} {node : Node}
    (hr : route digest ring monitor sessionId = .ok node) :
    ring.nodes.contains node.nodeId = true ∧ monitor.isHealthy node.nodeId = true := by
  rw [route_eq h] at hr
  split at hr
  · rename_i n hn
    obtain rfl := Except.ok.inj hr
    have hmem := List.mem_of_mem_take (List.mem_of_find?_eq_some hn)
    exact ⟨(contains_iff_mem_memberOrder h sessionId _).mpr ⟨n, hmem, rfl⟩,
      by simpa using List.find?_some hn⟩
  · cases hr

theorem route_changed (hs : (machine digest K).Reachable s)
    (ht : (machine digest K).Reachable t) {sessionId : String} {node : Node}
    (hroute : route digest s.ring s.monitor sessionId = .ok node)
    (hmember : t.ring.nodes.contains node.nodeId = true)
    (hhealthy : t.monitor.isHealthy node.nodeId = true) :
    (∃ m, route digest t.ring t.monitor sessionId = .ok m ∧
      (m = node ∨ s.ring.nodes.contains m.nodeId = false ∨
        s.monitor.isHealthy m.nodeId = false)) ∨
    route digest t.ring t.monitor sessionId = .error (.http noHealthyWorkers) ∧
      ∃ nodeId, t.ring.nodes.contains nodeId = true ∧ s.ring.nodes.contains nodeId = false := by
  have hws := reachable_wellFormed hs
  have hwt := reachable_wellFormed ht
  have hagree := consistent_of_reachable hs ht
  have horder := common_order hws.canonical hwt.canonical (hws.vnodes.trans hwt.vnodes.symm) hagree
    sessionId
  have hfind : ((memberOrder digest s.ring sessionId).take workerNodes.length).find?
      (fun n => s.monitor.isHealthy n.nodeId) = some node := by
    rw [route_eq hws] at hroute
    split at hroute
    · rename_i n hn
      rw [hn, Except.ok.inj hroute]
    · cases hroute
  have hnode : s.ring.nodes.get? node.nodeId = some node :=
    (mem_memberOrder_iff hws sessionId node).mp
      (List.mem_of_mem_take (List.mem_of_find?_eq_some hfind))
  obtain ⟨m, hm⟩ := (PyDict.contains_iff _ _).mp hmember
  obtain rfl := hagree _ _ _ hnode hm
  have hcommon : common s.ring t.ring node.nodeId = true := by
    simp [common, PyDict.contains, hnode, hm]
  have hjoined : ∀ y ∈ memberOrder digest t.ring sessionId,
      common s.ring t.ring y.nodeId = false →
        t.ring.nodes.contains y.nodeId = true ∧ s.ring.nodes.contains y.nodeId = false := by
    intro y hy hc
    have hmem := (contains_iff_mem_memberOrder hwt sessionId y.nodeId).mpr ⟨y, hy, rfl⟩
    rw [common, hmem, Bool.and_true] at hc
    exact ⟨hmem, hc⟩
  have hchoice := find?_take_changed (q := fun n => t.monitor.isHealthy n.nodeId)
    (List.Nodup.of_map _ (memberOrder_nodup hws.canonical sessionId)) horder hfind hcommon
    ((mem_memberOrder_iff hwt sessionId node).mpr hm) hhealthy
  rw [route_eq hwt]
  rcases hchoice with ⟨y, hy, hfound, hwhy⟩ | ⟨hnone, y, hy, hc⟩
  · refine .inl ⟨y, by rw [hfound], ?_⟩
    rcases hwhy with rfl | hc | hsick
    · exact .inl rfl
    · exact .inr (.inl (hjoined y hy hc).2)
    · exact .inr (.inr hsick)
  · exact .inr ⟨by rw [hnone], y.nodeId, hjoined y hy hc⟩

/-- Between any two reachable states, of one run or of two: a session whose worker is still a
member and healthy has left it only for a worker that was no member before or not healthy, and
gets 503 only where a worker has joined. Where none has joined or recovered it stays, whatever
has left. -/
theorem session_affinity (hs : (machine digest K).Reachable s)
    (ht : (machine digest K).Reachable t) {sessionId : String} {node : Node}
    (hroute : route digest s.ring s.monitor sessionId = .ok node)
    (hmember : t.ring.nodes.contains node.nodeId = true)
    (hhealthy : t.monitor.isHealthy node.nodeId = true) :
    ((∃ m, route digest t.ring t.monitor sessionId = .ok m ∧
        (m = node ∨ s.ring.nodes.contains m.nodeId = false ∨
          s.monitor.isHealthy m.nodeId = false)) ∨
      route digest t.ring t.monitor sessionId = .error (.http noHealthyWorkers) ∧
        ∃ nodeId, t.ring.nodes.contains nodeId = true ∧
          s.ring.nodes.contains nodeId = false) ∧
    ((∀ nodeId, t.ring.nodes.contains nodeId = true → s.ring.nodes.contains nodeId = true) →
      (∀ nodeId, t.monitor.isHealthy nodeId = true → s.monitor.isHealthy nodeId = true) →
      route digest t.ring t.monitor sessionId = .ok node) := by
  have hchanged := route_changed hs ht hroute hmember hhealthy
  refine ⟨hchanged, fun hmembers hwell => ?_⟩
  rcases hchanged with ⟨m, hm, hwhy⟩ | ⟨-, nodeId, htn, hsn⟩
  · obtain ⟨hin, hfit⟩ := of_route (reachable_wellFormed ht) hm
    rcases hwhy with rfl | hout | hsick
    · exact hm
    · rw [hmembers _ hin] at hout
      cases hout
    · rw [hwell _ hfit] at hsick
      cases hsick
  · rw [hmembers _ htn] at hsn
    cases hsn

/-- The first worker has not answered yet. -/
def oneUp : List (RouterEvent ℤ) := [.check "worker-b" true, .check "worker-b" true, .runCallback]

/-- Now it has. -/
def bothUp : List (RouterEvent ℤ) :=
  oneUp ++ [.check "worker-a" true, .check "worker-a" true, .runCallback]

theorem session_affinity_bothUp : ∃ s t node, (machine (fun _ => 0) ℤ).Run oneUp s ∧
    (machine (fun _ => 0) ℤ).Run bothUp t ∧
    route (fun _ => 0) s.ring s.monitor "session-1" = .ok node ∧ node.nodeId = "worker-b" ∧
    ∃ m, route (fun _ => 0) t.ring t.monitor "session-1" = .ok m ∧
      (m = node ∨ s.ring.nodes.contains m.nodeId = false ∨
        s.monitor.isHealthy m.nodeId = false) := by
  obtain ⟨s, hs, hkeys, ha, hb⟩ : ∃ s, (machine (fun _ => 0) ℤ).exec
      (machine (fun _ => 0) ℤ).init oneUp = some s ∧
      s.ring.nodes.keys = ["worker-a", "worker-b"] ∧ s.monitor.isHealthy "worker-a" = false ∧
      s.monitor.isHealthy "worker-b" = true := ⟨_, rfl, rfl, rfl, rfl⟩
  obtain ⟨t, ht, hkeys', hb'⟩ : ∃ t, (machine (fun _ => 0) ℤ).exec
      (machine (fun _ => 0) ℤ).init bothUp = some t ∧
      t.ring.nodes.keys = ["worker-a", "worker-b"] ∧ t.monitor.isHealthy "worker-b" = true :=
    ⟨_, rfl, rfl, rfl⟩
  have hrs := (Machine.run_iff_exec _).mpr hs
  have hrt := (Machine.run_iff_exec _).mpr ht
  have hw := reachable_wellFormed ⟨_, hrs⟩
  have howners : owners (fun _ => 0) s.ring "session-1" = ["worker-a", "worker-b"] := by
    have hp := hw.canonical.owners_perm hw.populated "session-1"
    rw [hkeys] at hp
    exact hp.eq_of_pairwise (fun _ _ _ _ => le_antisymm) (owners_sorted hw.canonical _) (by decide)
  have hids := hw.canonical.map_nodeId_memberOrder "session-1"
  rw [howners] at hids
  obtain ⟨a, rest, hl, hida, hrest⟩ := List.map_eq_cons_iff.mp hids
  obtain ⟨b, rest, rfl, hidb, hnil⟩ := List.map_eq_cons_iff.mp hrest
  obtain rfl := List.map_eq_nil_iff.mp hnil
  have hroute : route (fun _ => 0) s.ring s.monitor "session-1" = .ok b := by
    rw [route_eq hw, hl]
    simp [workerNodes, hida, hidb, ha, hb]
  have hmember : t.ring.nodes.contains b.nodeId = true := by
    rw [hidb]
    exact (t.ring.nodes.contains_iff _).mpr ((t.ring.nodes.mem_keys_iff _).mp (hkeys' ▸ by decide))
  have haff := session_affinity ⟨_, hrs⟩ ⟨_, hrt⟩ hroute hmember (hidb ▸ hb')
  refine ⟨s, t, b, hrs, hrt, hroute, hidb, haff.1.resolve_right ?_⟩
  rintro ⟨-, nodeId, htn, hsn⟩
  have hin := (t.ring.nodes.mem_keys_iff nodeId).mpr ((t.ring.nodes.contains_iff _).mp htn)
  rw [hkeys', ← hkeys] at hin
  rw [(s.ring.nodes.contains_iff _).mpr ((s.ring.nodes.mem_keys_iff _).mp hin)] at hsn
  cases hsn

end RouterSystem
end InferenceCluster
