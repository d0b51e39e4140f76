import InferenceCluster.Spec.Collector
import InferenceCluster.Proofs.RingFollowsHealth
import Mathlib.Algebra.BigOperators.Group.List.Basic

/-! Which workers the cluster's queue depth counts. The collector polls the static list, while
requests go to the ring: workers that the autoscaler has added are never polled, and a static
worker that is out of the ring still is. -/

namespace InferenceCluster

/-- Two sums over lists without duplicates agree if and only if their differences do. -/
theorem sum_eq_iff_of_nodup {α : Type} [DecidableEq α] {l l' : List α} (hl : l.Nodup)
    (hl' : l'.Nodup) (f : α → ℕ) : (l.map f).sum = (l'.map f).sum ↔
      ((l.filter (· ∉ l')).map f).sum = ((l'.filter (· ∉ l)).map f).sum := by
  have hsplit : ∀ a b : List α, (a.map f).sum =
      ((a.filter (· ∈ b)).map f).sum + ((a.filter (· ∉ b)).map f).sum := by
    intro a b
    have hp := (List.filter_append_perm (· ∈ b) a).map f
    rw [← hp.sum_eq, List.map_append, List.sum_append]
    simp
  have hcommon : (l.filter (· ∈ l')).Perm (l'.filter (· ∈ l)) := by
    refine (List.perm_ext_iff_of_nodup (hl.filter _) (hl'.filter _)).mpr fun x => ?_
    simp [and_comm]
  rw [hsplit l l', hsplit l' l, (hcommon.map f).sum_eq]
  exact Nat.add_left_cancel_iff

variable {K : Type} [Zero K] {digest : String → ℕ}

/-- The queue depth that a url reports. -/
def reported (answer : String → Option (WorkerMetrics K)) (url : String) : ℕ :=
  ((answer url).map WorkerMetrics.queueDepth).getD 0

namespace MetricsCollector

variable [LT K] [DecidableLT K]

theorem foldl_poll (answer : String → Option (WorkerMetrics K)) (urls : List String)
    (r : MetricsCollector K × Snapshot) :
    (urls.foldl (poll answer) r).1.workerUrls = r.1.workerUrls ∧
    (urls.foldl (poll answer) r).2.clusterQueueDepth =
      r.2.clusterQueueDepth + (urls.map (reported answer)).sum := by
  induction urls generalizing r with
  | nil => exact ⟨rfl, rfl⟩
  | cons url urls ih =>
    obtain ⟨hurls, hdepth⟩ := ih (poll answer r url)
    rw [List.foldl_cons, List.map_cons, List.sum_cons, hurls, hdepth, ← Nat.add_assoc]
    cases ha : answer url with
    | none => simp [poll, reported, ha]
    | some data => simp [poll, reported, ha]

theorem collect_workerUrls (c : MetricsCollector K) (answer : String → Option (WorkerMetrics K)) :
    (c.collect answer).workerUrls = c.workerUrls := by
  simp only [collect]
  exact (foldl_poll answer c.workerUrls (c, {})).1

theorem getLast?_appendMax {α : Type} {maxlen : ℕ} (h : 0 < maxlen) (l : List α) (x : α) :
    (appendMax maxlen l x).getLast? = some x := by
  have hlen : l.length + 1 - maxlen < (l ++ [x]).length := by
    rw [List.length_append, List.length_singleton]
    omega
  rw [appendMax, List.getLast?_drop, if_neg (not_le.mpr hlen), List.getLast?_concat]

/-- The value that the next tick reads: what the polled workers report. -/
theorem queueDepthNow_collect (c : MetricsCollector K)
    (answer : String → Option (WorkerMetrics K)) :
    (c.collect answer).queueDepthNow = (c.workerUrls.map (reported answer)).sum := by
  simp only [queueDepthNow, collect, getLast?_appendMax (Nat.zero_lt_succ 99)]
  exact (foldl_poll answer c.workerUrls (c, {})).2.trans (Nat.zero_add _)

end MetricsCollector
namespace RouterSystem

/-- The urls of the ring's members. -/
def memberUrls (s : RouterSystem K) : List String := s.ring.nodes.values.map Node.address

theorem memberUrls_nodup {s : RouterSystem K} (h : (machine digest K).Reachable s) :
    s.memberUrls.Nodup := by
  have hw := reachable_wellFormed h
  have hids : (s.ring.nodes.values.map Node.nodeId).Nodup := by
    rw [← s.ring.nodes.filterMap_get?_keys,
      hw.canonical.map_nodeId fun k hk => (PyDict.mem_keys_iff _ _).mp hk]
    exact s.ring.nodes.nodup
  have hroutable : ∀ n ∈ s.ring.nodes.values, Routable n := fun n hn => by
    obtain ⟨k, hk⟩ := (PyDict.mem_values_iff _ _).mp hn
    exact (hosts_of_reachable h).member k n hk
  exact (List.Nodup.of_map _ hids).map_on fun n hn m hm he =>
    (hroutable n hn).eq_of_address_eq (hroutable m hm) he

/-! ### Runs without health checks -/

/-- No static worker has been taken out, and none is the autoscaler's to stop. -/
structure Steady (s : RouterSystem K) : Prop where
  pending : s.pending = []
  member : ∀ n ∈ workerNodes, s.ring.nodes.get? n.nodeId = some n
  owned : ∀ k proc, s.autoscaler.workers.get? k = some (some proc) → isBaseline k = false

theorem steady_init : (init digest K).Steady := by
  refine ⟨rfl, fun n hn => ?_, fun k proc hk => ?_⟩
  · simp only [workerNodes, List.mem_cons, List.not_mem_nil, or_false] at hn
    rcases hn with rfl | rfl <;> rfl
  · simp only [init, workerNodes, List.foldl_cons, List.foldl_nil, registerWorker,
      Autoscaler.registerExisting, PyDict.get?_set, PyDict.get?_empty] at hk
    split_ifs at hk <;> cases hk

omit [Zero K] in
theorem Steady.step {s s' : RouterSystem K} {e : RouterEvent K} (h : s.Steady)
    (hok : ∀ nodeId success, e ≠ .check nodeId success) (hs : Stepped digest s e s') :
    s'.Steady := by
  cases hs with
  | checked => exact absurd rfl (hok _ _)
  | called hp => exact absurd (h.pending.symm.trans hp) (by simp)
  | @scaledUp now ts queueDepth proc =>
    refine ⟨h.pending, h.member, fun k p hk => ?_⟩
    cases proc with
    | none => exact h.owned k p hk
    | some proc =>
      simp only [Autoscaler.scaleUp, Autoscaler.reserve, PyDict.get?_set] at hk
      split_ifs at hk with he
      · exact he ▸ autoId_not_baseline _
      · exact h.owned k p hk
  | added hreg =>
    exact ⟨h.pending, fun n hn => ConsistentHashRing.get?_addNode_of_member (h.member n hn), h.owned⟩
  | gaveUp hreg => exact ⟨h.pending, h.member, h.owned⟩
  | notOwned => exact h
  | @scaledDown now ts queueDepth nodeId proc hproc =>
    refine ⟨h.pending, fun n hn => ?_, fun k p hk => ?_⟩
    · rw [ConsistentHashRing.removeNode_get?, if_neg, h.member n hn]
      rintro rfl
      have hb : isBaseline n.nodeId = true := List.any_eq_true.mpr ⟨n, hn, by simp⟩
      rw [h.owned _ _ hproc] at hb
      cases hb
    · simp only [PyDict.get?_pop] at hk
      split_ifs at hk
      exact h.owned k p hk

omit [Zero K] in
theorem Steady.subset_memberUrls {s : RouterSystem K} (h : s.Steady) :
    ∀ url ∈ workerUrls, url ∈ s.memberUrls := by
  intro url hurl
  obtain ⟨n, hn, rfl⟩ := List.mem_map.mp hurl
  refine List.mem_map.mpr ⟨n, (PyDict.mem_values_iff _ _).mpr ⟨_, h.member n hn⟩, ?_⟩
  rw [Node.address, (Routable.static hn).host_eq]
  rfl

end RouterSystem

/-! ### The collected depth -/

def ClusterEvent.isCheck : ClusterEvent K → Bool
  | .router (.check _ _) => true
  | _ => false

namespace Cluster

variable [LT K] [DecidableLT K] {events : List (ClusterEvent K)} {s s' : Cluster K}
variable {answer : String → Option (WorkerMetrics K)}

/-- The depth that the next tick reads is what the members of the ring report. -/
def Covers (s : Cluster K) (answer : String → Option (WorkerMetrics K)) : Prop :=
  s.collector.queueDepthNow = (s.router.memberUrls.map (reported answer)).sum

/-- Members of the ring that are not polled report, all together, what polled workers outside
the ring do. -/
def Balanced (s : Cluster K) (answer : String → Option (WorkerMetrics K)) : Prop :=
  ((s.router.memberUrls.filter (· ∉ workerUrls)).map (reported answer)).sum =
    ((workerUrls.filter (· ∉ s.router.memberUrls)).map (reported answer)).sum

/-- What a run knows of the two components. -/
structure Wired (digest : String → ℕ) (events : List (ClusterEvent K)) (s : Cluster K) : Prop where
  router : (RouterSystem.machine digest K).Reachable s.router
  urls : s.collector.workerUrls = workerUrls
  steady : (∀ e ∈ events, e.isCheck = false) → s.router.Steady

theorem wired_of_run (h : (machine digest K).Run events s) : Wired digest events s := by
  induction h with
  | nil => exact ⟨⟨[], .nil⟩, rfl, fun _ => RouterSystem.steady_init⟩
  | @snoc events s e s' hr hs ih =>
    obtain ⟨⟨routed, hrouted⟩, hurls, hsteady⟩ := ih
    have hbefore : (∀ e' ∈ events ++ [e], e'.isCheck = false) → s.router.Steady :=
      fun hok => hsteady (List.forall_mem_append.mp hok).1
    cases e with
    | router e =>
      obtain ⟨router, hrouter, rfl⟩ := Option.map_eq_some_iff.mp hs
      refine ⟨⟨routed ++ [e], hrouted.snoc hrouter⟩, hurls, fun hok => ?_⟩
      refine (hbefore hok).step ?_ (RouterSystem.stepped hrouter)
      rintro nodeId success rfl
      have hcheck := hok _ (List.mem_append_right _ (List.mem_singleton_self _))
      cases hcheck
    | collect answer =>
      obtain rfl := Option.some.inj hs
      exact ⟨⟨routed, hrouted⟩, (MetricsCollector.collect_workerUrls _ _).trans hurls, hbefore⟩

/-- In every run, a collected depth is that of the ring exactly when what it misses and what it
counts beyond the ring balance; without health checks, when no autoscaled member has a queue. -/
theorem covers_iff (h : (machine digest K).Run events s)
    (hs : s.step digest (.collect answer) = some s') :
    (s'.Covers answer ↔ s.Balanced answer) ∧
    ((∀ e ∈ events, e.isCheck = false) → (s'.Covers answer ↔
      ∀ url ∈ s.router.memberUrls, url ∉ workerUrls → reported answer url = 0)) := by
  obtain ⟨hreach, hurls, hsteady⟩ := wired_of_run h
  obtain rfl := Option.some.inj hs
  have hnodup : workerUrls.Nodup := by decide
  have hcovers : Covers { s with collector := s.collector.collect answer } answer ↔
      s.Balanced answer := by
    rw [Covers, Balanced, MetricsCollector.queueDepthNow_collect, hurls, eq_comm]
    exact sum_eq_iff_of_nodup (RouterSystem.memberUrls_nodup hreach) hnodup _
  refine ⟨hcovers, fun hok => hcovers.trans ?_⟩
  have hnone : workerUrls.filter (· ∉ s.router.memberUrls) = [] :=
    List.filter_eq_nil_iff.mpr fun url hurl => by simp [(hsteady hok).subset_memberUrls url hurl]
  rw [Balanced, hnone, List.map_nil, List.sum_nil, List.sum_eq_zero_iff]
  simp only [List.forall_mem_map, List.mem_filter, decide_eq_true_eq, and_imp]

/-- One worker is started and joins the ring. -/
def grown : List (ClusterEvent ℤ) :=
  [.router (.scaleUp 0 0 0 (some 1)),
    .router (.addToRing ⟨"worker-auto-8003", "http://127.0.0.1:8003", 8003⟩)]

/-- The static workers have two requests each, the started one has `depth`. -/
def answers (depth : ℕ) (url : String) : Option (WorkerMetrics ℤ) :=
  some { queueDepth := if url = "http://127.0.0.1:8003" then depth else 2 }

theorem memberUrls_grown : ∃ s, (machine (fun _ => 0) ℤ).Run grown s ∧ s.router.memberUrls =
    ["http://127.0.0.1:8001", "http://127.0.0.1:8002", "http://127.0.0.1:8003"] := by
  have hexec : ((machine (fun _ => 0) ℤ).exec (machine (fun _ => 0) ℤ).init grown).map
      (fun s => s.router.memberUrls) =
      some ["http://127.0.0.1:8001", "http://127.0.0.1:8002", "http://127.0.0.1:8003"] := by
    decide +kernel
  obtain ⟨s, hs, hurls⟩ := Option.map_eq_some_iff.mp hexec
  exact ⟨s, (Machine.run_iff_exec _).mpr hs, hurls⟩

theorem covers_iff_grown : ∃ s s', (machine (fun _ => 0) ℤ).Run grown s ∧
    s.step (fun _ => 0) (.collect (answers 0)) = some s' ∧ s'.Covers (answers 0) := by
  obtain ⟨s, hr, hurls⟩ := memberUrls_grown
  refine ⟨s, _, hr, rfl, ((covers_iff hr rfl).2 (by simp [grown, ClusterEvent.isCheck])).mpr ?_⟩
  rw [hurls]
  decide

/-- The started worker has a queue of five, and the collected depth misses it. -/
theorem started_worker_missed : ∃ s s', (machine (fun _ => 0) ℤ).Run grown s ∧
    s.step (fun _ => 0) (.collect (answers 5)) = some s' ∧
    (∀ url ∈ s.router.memberUrls, (answers 5 url).isSome = true) ∧
    s'.collector.queueDepthNow = 4 ∧ (s.router.memberUrls.map (reported (answers 5))).sum = 9 ∧
    ¬s'.Covers (answers 5) := by
  obtain ⟨s, hr, hurls⟩ := memberUrls_grown
  have hnow : (s.collector.collect (answers 5)).queueDepthNow = 4 := by
    rw [MetricsCollector.queueDepthNow_collect, (wired_of_run hr).urls]
    decide
  have hsum : (s.router.memberUrls.map (reported (answers 5))).sum = 9 := by
    rw [hurls]
    decide
  refine ⟨s, _, hr, rfl, fun _ _ => rfl, hnow, hsum, fun hcovers => ?_⟩
  have heq : 4 = 9 := hnow.symm.trans (hcovers.trans hsum)
  cases heq

end Cluster
end InferenceCluster
