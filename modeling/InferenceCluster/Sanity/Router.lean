import InferenceCluster.Spec.Router
import InferenceCluster.Sanity.HashRing
import InferenceCluster.Sanity.Heartbeat

/-! What the events of the router system do to the ring: its shape, and who is in it. -/

namespace InferenceCluster

variable {digest : String → ℕ}

namespace ConsistentHashRing

theorem contains_addNode (r : ConsistentHashRing) (node : Node) (k : String) :
    (r.addNode digest node).nodes.contains k = (r.nodes.contains k || k == node.nodeId) := by
  cases hc : r.nodes.contains node.nodeId with
  | true =>
    rw [addNode_of_contains hc]
    by_cases hk : k = node.nodeId
    · rw [hk, hc, Bool.true_or]
    · simp [hk]
  | false =>
    rw [addNode_nodes hc, PyDict.contains, PyDict.get?_set]
    by_cases hk : k = node.nodeId <;> simp [hk, PyDict.contains]

theorem contains_removeNode (r : ConsistentHashRing) (nodeId k : String) :
    (r.removeNode digest nodeId).nodes.contains k = (r.nodes.contains k && k != nodeId) := by
  rw [PyDict.contains, removeNode_get?]
  by_cases hk : k = nodeId <;> simp [hk, PyDict.contains]

theorem member_of_addNode {r : ConsistentHashRing} {node n : Node} {k : String}
    (h : (r.addNode digest node).nodes.get? k = some n) :
    n = node ∨ r.nodes.get? k = some n := by
  cases hc : r.nodes.contains node.nodeId with
  | true =>
    rw [addNode_of_contains hc] at h
    exact .inr h
  | false =>
    rw [addNode_get? hc] at h
    split_ifs at h
    · exact .inl (Option.some.inj h).symm
    · exact .inr h

theorem get?_addNode_of_member {r : ConsistentHashRing} {node n : Node} {k : String}
    (h : r.nodes.get? k = some n) : (r.addNode digest node).nodes.get? k = some n := by
  cases hc : r.nodes.contains node.nodeId with
  | true => rwa [addNode_of_contains hc]
  | false =>
    rw [addNode_get? hc, if_neg, h]
    rintro rfl
    rw [PyDict.contains, h] at hc
    cases hc

theorem member_of_removeNode {r : ConsistentHashRing} {n : Node} {nodeId k : String}
    (h : (r.removeNode digest nodeId).nodes.get? k = some n) : r.nodes.get? k = some n := by
  rw [removeNode_get?] at h
  split_ifs at h
  exact h

/-- Entries in canonical order, every member with at least one of them. -/
structure WellFormed (digest : String → ℕ) (r : ConsistentHashRing) : Prop where
  canonical : Canonical digest r
  populated : r.Populated
  vnodes : r.vnodesPerNode = 150

theorem WellFormed.addNode {r : ConsistentHashRing} (h : r.WellFormed digest) {node : Node}
    (hw : node.weight = 1) : (r.addNode digest node).WellFormed digest := by
  refine ⟨canonical_addNode h.canonical node, h.populated.addNode ?_, ?_⟩
  · rw [h.vnodes, hw]
    norm_num
  · rw [addNode_vnodesPerNode, h.vnodes]

theorem WellFormed.removeNode {r : ConsistentHashRing} (h : r.WellFormed digest)
    (nodeId : String) : (r.removeNode digest nodeId).WellFormed digest :=
  ⟨canonical_removeNode h.canonical nodeId, h.populated.removeNode nodeId,
    (removeNode_vnodesPerNode r nodeId).trans h.vnodes⟩

theorem wellFormed_init : (init 150).WellFormed digest :=
  ⟨canonical_init 150, fun _ _ h => by simp [init] at h, rfl⟩

end ConsistentHashRing

/-! ### Node ids -/

/-- A node of the static list. -/
def isBaseline (nodeId : String) : Bool := workerNodes.any fun n => n.nodeId = nodeId

theorem natToString_injective : Function.Injective fun n : ℕ => toString n := by
  intro p q h
  have hd : Nat.toDigits 10 p = Nat.toDigits 10 q := by simpa using congrArg String.toList h
  simpa using congrArg (Nat.ofDigitChars 10 · 0) hd

theorem autoId_injective : Function.Injective Autoscaler.autoId :=
  fun _ _ h => natToString_injective ((String.append_right_inj _).mp h)

theorem autoId_not_baseline (port : ℕ) : isBaseline (Autoscaler.autoId port) = false := by
  refine List.any_eq_false.mpr fun n hn he => ?_
  have hauto : 12 ≤ (Autoscaler.autoId port).length := by
    have h12 : "worker-auto-".length = 12 := by decide
    rw [Autoscaler.autoId, String.length_append, h12]
    exact Nat.le_add_right 12 _
  have hbase : n.nodeId.length = 8 := by
    simp only [workerNodes, List.mem_cons, List.not_mem_nil, or_false] at hn
    rcases hn with rfl | rfl <;> decide
  rw [← of_decide_eq_true he, hbase] at hauto
  omega

/-- A node of the static list, or one that the autoscaler has made. -/
inductive Routable : Node → Prop
  | static {n : Node} (h : n ∈ workerNodes) : Routable n
  | auto {port : ℕ} (h : 8003 ≤ port) :
      Routable { nodeId := Autoscaler.autoId port, host := "127.0.0.1", port }

theorem Routable.host_eq {n : Node} (h : Routable n) : n.host = "127.0.0.1" := by
  cases h with
  | static h =>
    simp only [workerNodes, List.mem_cons, List.not_mem_nil, or_false] at h
    rcases h with rfl | rfl <;> rfl
  | auto h => rfl

theorem static_port_lt {n : Node} (h : n ∈ workerNodes) : n.port < 8003 := by
  simp only [workerNodes, List.mem_cons, List.not_mem_nil, or_false] at h
  rcases h with rfl | rfl <;> decide

theorem Routable.eq_of_port_eq {n m : Node} (hn : Routable n) (hm : Routable m)
    (h : n.port = m.port) : n = m := by
  cases hn with
  | static hn =>
    cases hm with
    | static hm =>
      simp only [workerNodes, List.mem_cons, List.not_mem_nil, or_false] at hn hm
      rcases hn with rfl | rfl <;> rcases hm with rfl | rfl <;> simp at h ⊢
    | auto hm => exact absurd (h.symm.trans_lt (static_port_lt hn)) (not_lt.mpr hm)
  | @auto port hn =>
    cases hm with
    | static hm => exact absurd (h.trans_lt (static_port_lt hm)) (not_lt.mpr hn)
    | @auto port' hm =>
      obtain rfl : port = port' := h
      rfl

theorem Routable.eq_of_address_eq {n m : Node} (hn : Routable n) (hm : Routable m)
    (h : n.address = m.address) : n = m := by
  refine hn.eq_of_port_eq hm ?_
  rw [Node.address, Node.address, hn.host_eq, hm.host_eq] at h
  exact natToString_injective ((String.append_right_inj _).mp h)

/-! ### Callbacks -/

theorem onNodeUp_of_baseline (digest : String → ℕ) (r : ConsistentHashRing) {nodeId : String}
    (h : isBaseline nodeId = true) : ∃ n : Node,
      onNodeUp digest r nodeId = .ok (r.addNode digest n) ∧ n.nodeId = nodeId ∧ n.weight = 1 := by
  obtain ⟨m, hm, hid⟩ := List.any_eq_true.mp h
  cases hf : workerNodes.find? fun n => n.nodeId = nodeId with
  | none => exact absurd hid (List.find?_eq_none.mp hf m hm)
  | some n =>
    have hmem := List.mem_of_find?_eq_some hf
    refine ⟨n, by simp only [onNodeUp, hf], by simpa using List.find?_some hf, ?_⟩
    simp only [workerNodes, List.mem_cons, List.not_mem_nil, or_false] at hmem
    rcases hmem with rfl | rfl <;> rfl

theorem onNodeUp_of_not_baseline (r : ConsistentHashRing) {nodeId : String}
    (h : isBaseline nodeId = false) : onNodeUp digest r nodeId = .error ⟨⟩ := by
  have hf : workerNodes.find? (fun n => n.nodeId = nodeId) = none :=
    List.find?_eq_none.mpr (List.any_eq_false.mp h)
  simp only [onNodeUp, hf]

/-- What a callback does to the membership of one node. -/
def Callback.apply (k : String) (member : Bool) : Callback → Bool
  | .onNodeDown nodeId => member && k != nodeId
  | .onNodeUp nodeId => member || (k == nodeId && isBaseline nodeId)

theorem Callback.contains_run (cb : Callback) (r : ConsistentHashRing) (k : String) :
    (cb.run digest r).nodes.contains k = cb.apply k (r.nodes.contains k) := by
  cases cb with
  | onNodeDown nodeId => exact r.contains_removeNode nodeId k
  | onNodeUp nodeId =>
    cases hb : isBaseline nodeId with
    | true =>
      obtain ⟨n, hup, hid, -⟩ := onNodeUp_of_baseline digest r hb
      simp only [Callback.run, hup, Callback.apply, hb, Bool.and_true]
      rw [r.contains_addNode, hid]
    | false =>
      simp [Callback.run, onNodeUp_of_not_baseline r hb, Callback.apply, hb]

theorem Callback.wellFormed_run (cb : Callback) {r : ConsistentHashRing} (h : r.WellFormed digest) :
    (cb.run digest r).WellFormed digest := by
  cases cb with
  | onNodeDown nodeId => exact h.removeNode nodeId
  | onNodeUp nodeId =>
    cases hb : isBaseline nodeId with
    | true =>
      obtain ⟨n, hup, -, hw⟩ := onNodeUp_of_baseline digest r hb
      simp only [Callback.run, hup]
      exact h.addNode hw
    | false =>
      simpa [Callback.run, onNodeUp_of_not_baseline r hb] using h

theorem Callback.apply_of_ne {cb : Callback} {k : String} (h : cb.nodeId ≠ k) (member : Bool) :
    cb.apply k member = member := by
  cases cb with
  | onNodeDown nodeId =>
    have hk : k ≠ nodeId := Ne.symm h
    simp [Callback.apply, hk]
  | onNodeUp nodeId =>
    have hk : k ≠ nodeId := Ne.symm h
    simp [Callback.apply, hk]

theorem Callback.member_of_run {cb : Callback} {r : ConsistentHashRing} {n : Node} {k : String}
    (h : (cb.run digest r).nodes.get? k = some n) : n ∈ workerNodes ∨ r.nodes.get? k = some n := by
  cases cb with
  | onNodeDown nodeId => exact .inr (ConsistentHashRing.member_of_removeNode h)
  | onNodeUp nodeId =>
    cases hf : workerNodes.find? fun n => n.nodeId = nodeId with
    | none =>
      simp only [Callback.run, InferenceCluster.onNodeUp, hf] at h
      exact .inr h
    | some node =>
      simp only [Callback.run, InferenceCluster.onNodeUp, hf] at h
      refine (ConsistentHashRing.member_of_addNode h).imp_left fun he => ?_
      exact he ▸ List.mem_of_find?_eq_some hf

/-! ### Steps -/

namespace Autoscaler

variable {K : Type}

theorem scaleDown_eq_some {a a' : Autoscaler K} {now ts queueDepth : K} {nodeId : String}
    (h : a.scaleDown now ts queueDepth = some (nodeId, a')) :
    ∃ proc, a.workers.get? nodeId = some (some proc) ∧ a' = { a with
      workers := a.workers.pop nodeId
      lastScale := now
      scaleEvents := a.scaleEvents ++ [{ ts, action := .scaleDown, nodeId, queueDepth }] } := by
  obtain ⟨w, hw, h⟩ := Option.map_eq_some_iff.mp h
  obtain ⟨rfl, rfl⟩ := Prod.mk.inj h
  obtain ⟨proc, hproc⟩ := Option.isSome_iff_exists.mp
    (List.find?_some (p := fun w : String × Option ℕ => w.2.isSome) hw)
  refine ⟨proc, (PyDict.get?_eq_some_iff _ _ _).mpr ?_, rfl⟩
  rw [← hproc]
  exact List.mem_of_find?_eq_some hw

end Autoscaler

namespace RouterSystem

variable {K : Type}

/-- The steps, one constructor for each event and outcome. -/
inductive Stepped (digest : String → ℕ) (s : RouterSystem K) :
    RouterEvent K → RouterSystem K → Prop
  | checked {nodeId : String} {success : Bool} :
      Stepped digest s (.check nodeId success) { s with
        monitor := (s.monitor.check nodeId success).1
        pending := s.pending ++ (s.monitor.check nodeId success).2.toList }
  | called {cb : Callback} {pending : List Callback} (hp : s.pending = cb :: pending) :
      Stepped digest s .runCallback { s with ring := cb.run digest s.ring, pending }
  | scaledUp {now ts queueDepth : K} {proc : Option ℕ} :
      Stepped digest s (.scaleUp now ts queueDepth proc) { s with
        autoscaler := (s.autoscaler.scaleUp now ts queueDepth proc).1
        registering := s.registering ++ (s.autoscaler.scaleUp now ts queueDepth proc).2.toList }
  | added {reg : Registration} (hreg : reg ∈ s.registering) :
      Stepped digest s (.addToRing reg) { s with
        ring := (Autoscaler.addToRing digest s.ring s.monitor reg).1
        monitor := (Autoscaler.addToRing digest s.ring s.monitor reg).2
        registering := s.registering.erase reg }
  | gaveUp {reg : Registration} (hreg : reg ∈ s.registering) :
      Stepped digest s (.giveUp reg) { s with registering := s.registering.erase reg }
  | notOwned {now ts queueDepth : K} : Stepped digest s (.scaleDown now ts queueDepth) s
  | scaledDown {now ts queueDepth : K} {nodeId : String} {proc : ℕ}
      (hproc : s.autoscaler.workers.get? nodeId = some (some proc)) :
      Stepped digest s (.scaleDown now ts queueDepth) { s with
        autoscaler := { s.autoscaler with
          workers := s.autoscaler.workers.pop nodeId
          lastScale := now
          scaleEvents := s.autoscaler.scaleEvents ++
            [{ ts, action := .scaleDown, nodeId, queueDepth }] }
        ring := s.ring.removeNode digest nodeId }

theorem stepped {s s' : RouterSystem K} {e : RouterEvent K} (h : s.step digest e = some s') :
    Stepped digest s e s' := by
  cases e with
  | check nodeId success => exact Option.some.inj h ▸ .checked
  | runCallback =>
    simp only [step] at h
    split at h
    · cases h
    · rename_i hp
      obtain rfl := Option.some.inj h
      exact .called hp
  | scaleUp now ts queueDepth proc => exact Option.some.inj h ▸ .scaledUp
  | addToRing reg =>
    simp only [step] at h
    split_ifs at h with hreg
    exact Option.some.inj h ▸ .added hreg
  | giveUp reg =>
    simp only [step] at h
    split_ifs at h with hreg
    exact Option.some.inj h ▸ .gaveUp hreg
  | scaleDown now ts queueDepth =>
    simp only [step] at h
    split at h
    · exact Option.some.inj h ▸ .notOwned
    · rename_i hd
      obtain ⟨proc, hproc, rfl⟩ := Autoscaler.scaleDown_eq_some hd
      exact Option.some.inj h ▸ .scaledDown hproc

end RouterSystem

/-! ### Reachable rings -/

namespace RouterSystem

variable {K : Type}

theorem wellFormed_registerWorkers (nodes : List Node) (hw : ∀ n ∈ nodes, n.weight = 1)
    {s : RouterSystem K} (h : s.ring.WellFormed digest) :
    (nodes.foldl (registerWorker digest) s).ring.WellFormed digest := by
  induction nodes generalizing s with
  | nil => exact h
  | cons n nodes ih =>
    exact ih (fun m hm => hw m (List.mem_cons_of_mem _ hm)) (h.addNode (hw n List.mem_cons_self))

theorem wellFormed_step {s s' : RouterSystem K} {e : RouterEvent K}
    (h : s.ring.WellFormed digest) (hs : Stepped digest s e s') : s'.ring.WellFormed digest := by
  cases hs with
  | checked => exact h
  | called hp => exact Callback.wellFormed_run _ h
  | scaledUp => exact h
  | added hreg => exact h.addNode rfl
  | gaveUp hreg => exact h
  | notOwned => exact h
  | scaledDown hproc => exact h.removeNode _

theorem reachable_wellFormed [Zero K] {s : RouterSystem K} (h : (machine digest K).Reachable s) :
    s.ring.WellFormed digest := by
  refine Machine.Reachable.invariant (I := fun s => s.ring.WellFormed digest) ?_
    (fun _ _ _ hI hs => wellFormed_step hI (stepped hs)) h
  refine wellFormed_registerWorkers workerNodes (fun n hn => ?_) ConsistentHashRing.wellFormed_init
  simp only [workerNodes, List.mem_cons, List.not_mem_nil, or_false] at hn
  rcases hn with rfl | rfl <;> rfl

/-! ### Members -/

/-- Every node of the ring, and every one still to come, is one that the router makes. -/
structure Hosts (s : RouterSystem K) : Prop where
  member : ∀ k n, s.ring.nodes.get? k = some n → Routable n
  registering : ∀ reg ∈ s.registering,
    Routable { nodeId := reg.nodeId, host := "127.0.0.1", port := reg.port }
  nextPort : 8003 ≤ s.autoscaler.nextPort

theorem hosts_registerWorkers (nodes : List Node) (hn : ∀ n ∈ nodes, n ∈ workerNodes)
    {s : RouterSystem K} (h : s.Hosts) : (nodes.foldl (registerWorker digest) s).Hosts := by
  induction nodes generalizing s with
  | nil => exact h
  | cons n nodes ih =>
    refine ih (fun m hm => hn m (List.mem_cons_of_mem _ hm)) ⟨fun k m hk => ?_, h.registering, ?_⟩
    · rcases ConsistentHashRing.member_of_addNode hk with rfl | hk
      · exact .static (hn m List.mem_cons_self)
      · exact h.member k m hk
    · exact h.nextPort.trans (le_max_left _ _)

theorem Hosts.scaleUp {s : RouterSystem K} (h : s.Hosts) (now ts queueDepth : K)
    (proc : Option ℕ) : Hosts { s with
      autoscaler := (s.autoscaler.scaleUp now ts queueDepth proc).1
      registering := s.registering ++ (s.autoscaler.scaleUp now ts queueDepth proc).2.toList } := by
  refine ⟨h.member, fun reg hreg => ?_, ?_⟩
  · rcases List.mem_append.mp hreg with hreg | hreg
    · exact h.registering reg hreg
    · cases proc with
      | none => cases hreg
      | some p =>
        obtain rfl := List.mem_singleton.mp hreg
        exact .auto h.nextPort
  · cases proc <;> exact h.nextPort.trans (Nat.le_succ _)

theorem Hosts.step {s s' : RouterSystem K} {e : RouterEvent K} (h : s.Hosts)
    (hs : Stepped digest s e s') : s'.Hosts := by
  cases hs with
  | checked => exact ⟨h.member, h.registering, h.nextPort⟩
  | called hp =>
    refine ⟨fun k n hk => ?_, h.registering, h.nextPort⟩
    rcases Callback.member_of_run hk with hn | hk
    · exact .static hn
    · exact h.member k n hk
  | scaledUp => exact h.scaleUp _ _ _ _
  | @added reg hreg =>
    refine ⟨fun k n hk => ?_, fun r hr => h.registering r (List.mem_of_mem_erase hr), h.nextPort⟩
    rcases ConsistentHashRing.member_of_addNode hk with rfl | hk
    · exact h.registering reg hreg
    · exact h.member k n hk
  | gaveUp hreg =>
    exact ⟨h.member, fun r hr => h.registering r (List.mem_of_mem_erase hr), h.nextPort⟩
  | notOwned => exact h
  | scaledDown hproc =>
    exact ⟨fun k n hk => h.member k n (ConsistentHashRing.member_of_removeNode hk),
      h.registering, h.nextPort⟩

theorem hosts_of_reachable [Zero K] {s : RouterSystem K} (h : (machine digest K).Reachable s) : s.Hosts := by
  refine Machine.Reachable.invariant ?_ (fun _ _ _ hI hs => hI.step (stepped hs)) h
  refine hosts_registerWorkers workerNodes (fun n hn => hn) ⟨fun k n hk => ?_, ?_, le_rfl⟩
  · cases hk
  · exact fun reg hreg => absurd hreg List.not_mem_nil

end RouterSystem
end InferenceCluster
