import InferenceCluster.Proofs.CollectorWindows
import InferenceCluster.Proofs.PolledWorkers

/-! The collecting thread refines `_collect` as one step: with answers that carry their figures,
its windows, snapshots and figures by worker are those of a collector that takes a whole round at
once, whoever calls `current` in between. -/

namespace InferenceCluster

variable {K : Type} [Field K]

/-- The figures are the numbers `data`. -/
structure WorkerReading.Is (r : WorkerReading K) (data : WorkerMetrics K) : Prop where
  depth : r.depth.toNumber = some (data.queueDepth : K)
  tokens : r.tokens.toNumber = some (data.tokens : K)
  batches : r.batches.toNumber = some (data.batches : K)
  avgLat : r.avgLat.toNumber = some data.avgLatencyMs

/-- A reply that cannot be read, or one with these figures. -/
def WorkerReply.Tells (reply : WorkerReply K) (answer : Option (WorkerMetrics K)) : Prop :=
  Option.Rel WorkerReading.Is reply.reading answer

instance [DecidableEq K] (r : WorkerReading K) (data : WorkerMetrics K) : Decidable (r.Is data) :=
  decidable_of_iff (r.depth.toNumber = some (data.queueDepth : K) ∧
    r.tokens.toNumber = some (data.tokens : K) ∧ r.batches.toNumber = some (data.batches : K) ∧
    r.avgLat.toNumber = some data.avgLatencyMs)
  ⟨fun h => ⟨h.1, h.2.1, h.2.2.1, h.2.2.2⟩, fun h => ⟨h.depth, h.tokens, h.batches, h.avgLat⟩⟩

instance decidableOptionRel {α β : Type} (r : α → β → Prop) [∀ a b, Decidable (r a b)] :
    ∀ (a : Option α) (b : Option β), Decidable (Option.Rel r a b)
  | none, none => .isTrue .none
  | some a, some b => decidable_of_iff (r a b) ⟨.some, fun h => by cases h; assumption⟩
  | none, some _ => .isFalse fun h => by cases h
  | some _, none => .isFalse fun h => by cases h

instance [DecidableEq K] (reply : WorkerReply K) (answer : Option (WorkerMetrics K)) :
    Decidable (reply.Tells answer) :=
  inferInstanceAs (Decidable (Option.Rel WorkerReading.Is reply.reading answer))

def Snapshot.totals (snapshot : Snapshot) : ClusterTotals K :=
  ⟨snapshot.clusterQueueDepth, snapshot.clusterTokens, snapshot.clusterBatches⟩

theorem WorkerReply.Tells.cases {reply : WorkerReply K} {answer : Option (WorkerMetrics K)}
    (h : reply.Tells answer) : answer = none ∧ reply.reading = none ∨
      ∃ data r, answer = some data ∧ reply.reading = some r ∧ r.Is data := by
  rw [Tells] at h
  generalize reply.reading = reading at h
  cases h with
  | none => exact .inl ⟨rfl, rfl⟩
  | some h => exact .inr ⟨_, _, rfl, rfl, h⟩

theorem WorkerReading.Is.complete {reply : WorkerReply K} {r : WorkerReading K}
    {data : WorkerMetrics K} (h : r.Is data) (hr : reply.reading = some r) :
    reply.complete = some r := by
  rw [WorkerReply.complete, hr, Option.filter_some, h.depth, h.tokens, h.batches, h.avgLat]
  rfl

theorem WorkerReading.Is.figures {reply : WorkerReply K} {r : WorkerReading K}
    {data : WorkerMetrics K} (h : r.Is data) (hr : reply.reading = some r) :
    reply.figures = ⟨data.queueDepth, data.tokens, data.batches⟩ := by
  rw [WorkerReply.figures, hr]
  simp [h.depth, h.tokens, h.batches]

namespace MetricsCollector

variable [LinearOrder K]

/-- The loop of `_collect` has taken the replies `during`, after those of the rounds `before`. -/
structure Polled (c : MetricsCollector K) (before during : List (String × WorkerReply K))
    (r : MetricsCollector K × Snapshot) : Prop where
  workerUrls : r.1.workerUrls = c.workerUrls
  queueDepth : r.1.queueDepth = c.queueDepth
  snapshots : r.1.snapshots = c.snapshots
  latency : r.1.latency = (timed (before ++ during)).rtake 500
  nodeStats : ∀ url,
    Option.Rel WorkerReading.Is (lastOf url (answered (before ++ during))) (r.1.nodeStats.get? url)
  totals : r.2.totals = ClusterTotals.of during

theorem Polled.poll {c : MetricsCollector K} {before during : List (String × WorkerReply K)}
    {r : MetricsCollector K × Snapshot} {answer : String → Option (WorkerMetrics K)}
    {url : String} {reply : WorkerReply K} (h : Polled c before during r)
    (htells : reply.Tells (answer url)) :
    Polled c before (during ++ [(url, reply)]) (poll answer r url) := by
  rcases htells.cases with ⟨ha, hr⟩ | ⟨data, reading, ha, hr, hdata⟩
  · have hnone : answered [(url, reply)] = [] := by simp [answered, WorkerReply.complete, hr]
    have htimed : timed [(url, reply)] = [] := by simp [timed, hnone]
    simp only [MetricsCollector.poll, ha]
    refine { h with latency := ?_, nodeStats := ?_, totals := ?_ }
    · rw [← List.append_assoc, timed_append, htimed, List.append_nil, h.latency]
    · rw [← List.append_assoc, answered_append, hnone, List.append_nil]
      exact h.nodeStats
    · rw [ClusterTotals.of_skipped hr, h.totals]
  · have hone : answered [(url, reply)] = [(url, reading)] := by
      simp [answered, hdata.complete hr]
    have htimed : timed [(url, reply)] =
        if 0 < data.avgLatencyMs then [data.avgLatencyMs] else [] := by
      rw [timed, hone]
      split_ifs with hpos <;> simp [hdata.avgLat, hpos, Option.filter_some]
    simp only [MetricsCollector.poll, ha]
    refine ⟨h.workerUrls, h.queueDepth, h.snapshots, ?_, fun url' => ?_, ?_⟩
    · rw [← List.append_assoc, timed_append, htimed, h.latency]
      split_ifs
      · rw [appendMax_rtake]
      · rw [List.append_nil]
    · rw [← List.append_assoc, answered_append, hone, lastOf_concat, PyDict.get?_set]
      by_cases he : url' = url
      · rw [if_pos he.symm, if_pos he]
        exact .some hdata
      · rw [if_neg (Ne.symm he), if_neg he]
        exact h.nodeStats url'
    · have htotals := h.totals
      simp only [Snapshot.totals, ClusterTotals.of, ClusterTotals.mk.injEq] at htotals
      simp [Snapshot.totals, ClusterTotals.of, hdata.figures hr, htotals]

theorem Polled.foldl {c : MetricsCollector K} {before during : List (String × WorkerReply K)}
    {r : MetricsCollector K × Snapshot} {answer : String → Option (WorkerMetrics K)}
    (h : Polled c before during r) (replies : List (String × WorkerReply K))
    (htells : ∀ p ∈ replies, p.2.Tells (answer p.1)) :
    Polled c before (during ++ replies)
      ((replies.map Prod.fst).foldl (MetricsCollector.poll answer) r) := by
  induction replies generalizing during r with
  | nil => simpa using h
  | cons p replies ih =>
    have hrest := ih (h.poll (htells p List.mem_cons_self))
      fun q hq => htells q (List.mem_cons_of_mem _ hq)
    rw [List.append_assoc] at hrest
    exact hrest

/-- The collector after these rounds, each taken at once. -/
structure Shows (urls : List String) (rounds : List (CollectRound K)) (c : MetricsCollector K) :
    Prop where
  workerUrls : c.workerUrls = urls
  latency : c.latency = (timed (rounds.flatMap CollectRound.replies)).rtake 500
  queueDepth : c.queueDepth.map (fun n : ℕ => (n : K)) =
    (rounds.map fun r => (ClusterTotals.of r.replies).queueDepth).rtake 200
  snapshots : c.snapshots.map Snapshot.totals =
    (rounds.map fun r => ClusterTotals.of r.replies).rtake 100
  nodeStats : ∀ url, Option.Rel WorkerReading.Is
    (lastOf url (answered (rounds.flatMap CollectRound.replies))) (c.nodeStats.get? url)

theorem shows_init (urls : List String) :
    Shows urls ([] : List (CollectRound K)) { workerUrls := urls } where
  workerUrls := rfl
  latency := by simp [timed, answered, List.rtake]
  queueDepth := by simp [List.rtake]
  snapshots := by simp [List.rtake]
  nodeStats _ := .none

theorem Shows.collect {urls : List String} {rounds : List (CollectRound K)}
    {c : MetricsCollector K} {round : CollectRound K} {answer : String → Option (WorkerMetrics K)}
    (h : Shows urls rounds c) (hasked : round.replies.map Prod.fst = urls)
    (htells : ∀ p ∈ round.replies, p.2.Tells (answer p.1)) :
    Shows urls (rounds ++ [round]) (c.collect answer) := by
  have hstart : Polled c (rounds.flatMap CollectRound.replies) [] (c, {}) :=
    ⟨rfl, rfl, rfl, by rw [List.append_nil, h.latency], by simpa using h.nodeStats,
      by simp [Snapshot.totals, ClusterTotals.of]⟩
  have hp := hstart.foldl round.replies htells
  rw [List.nil_append, hasked, ← h.workerUrls] at hp
  have hreplies : (rounds ++ [round]).flatMap CollectRound.replies =
      rounds.flatMap CollectRound.replies ++ round.replies := by simp
  refine ⟨?_, ?_, ?_, ?_, fun url => ?_⟩
  · rw [collect_workerUrls, h.workerUrls]
  · simp only [MetricsCollector.collect, hp.latency, hreplies]
  · have hdepth := congrArg ClusterTotals.queueDepth hp.totals
    simp only [Snapshot.totals] at hdepth
    simp only [MetricsCollector.collect, hp.queueDepth, map_appendMax, h.queueDepth,
      appendMax_rtake, List.map_append, List.map_cons, List.map_nil, hdepth]
  · simp only [MetricsCollector.collect, hp.snapshots, map_appendMax, h.snapshots,
      appendMax_rtake, List.map_append, List.map_cons, List.map_nil, hp.totals]
  · simpa only [MetricsCollector.collect, hreplies] using hp.nodeStats url

theorem Shows.foldl {urls : List String} {before rounds : List (CollectRound K)}
    {c : MetricsCollector K} {answers : List (String → Option (WorkerMetrics K))}
    (h : Shows urls before c) (hasked : ∀ r ∈ rounds, r.replies.map Prod.fst = urls)
    (htells : List.Forall₂ (fun r answer => ∀ p ∈ r.replies, p.2.Tells (answer p.1)) rounds answers) :
    Shows urls (before ++ rounds) (answers.foldl MetricsCollector.collect c) := by
  induction htells generalizing before c with
  | nil => simpa using h
  | @cons round answer rounds answers hround _ ih =>
    have hnext := h.collect (hasked round List.mem_cons_self) hround
    have hrest := ih hnext fun r hr => hasked r (List.mem_cons_of_mem _ hr)
    rw [List.append_assoc] at hrest
    exact hrest

end MetricsCollector

namespace CollectorThreads

variable [LinearOrder K] {sqrt : K → K} {round : K → ℕ → K}

/-- Between two rounds, and whatever calls of `current` do, the collector is the one that takes
each round at once, for any answers that the replies tell. -/
theorem refines_collect {urls : List String} {es : List (CollectorEvent K)}
    {s : CollectorThreads K} {answers : List (String → Option (WorkerMetrics K))}
    (h : (machine sqrt round urls).Run es s) (hp : s.point = .loopTop)
    (htells : List.Forall₂ (fun c answer => ∀ p ∈ c.replies, p.2.Tells (answer p.1))
      s.history.rounds answers) :
    let c := answers.foldl MetricsCollector.collect { workerUrls := urls }
    s.latency.data = c.latency ∧ s.queueDepth.data = c.queueDepth.map (fun n : ℕ => (n : K)) ∧
    s.snapshots.map ClusterSnapshot.totals = c.snapshots.map Snapshot.totals ∧
    s.queueDepthNow = c.queueDepthNow ∧
    ∀ url, Option.Rel WorkerReading.Is ((s.nodeStats.get? url).map NodeStats.reading)
      (c.nodeStats.get? url) := by
  intro c
  have hw := windowed_of_run h
  have hc : c.Shows urls s.history.rounds := by
    have hfold := (MetricsCollector.shows_init urls).foldl (fun r hr => (hw.sound r hr).asked) htells
    exact hfold
  have hreplies : s.history.replies = [] := by
    have hasked := hw.asked
    rw [hp] at hasked
    exact hasked
  have hsnapshots : s.snapshots.map ClusterSnapshot.totals = c.snapshots.map Snapshot.totals := by
    rw [hw.snapshots, hc.snapshots, map_rtake, List.map_map]
    refine congrArg (List.rtake · 100) (List.map_congr_left fun r hr => ?_)
    exact (hw.sound r hr).totals
  refine ⟨?_, ?_, hsnapshots, ?_, fun url => ?_⟩
  · have hrec := hw.recorded
    simp only [hp, CollectHistory.asked, hreplies, CollectPoint.unrecorded,
      List.append_nil] at hrec
    rw [hw.latency, hc.latency, hrec]
  · have hdepths := hw.depths
    rw [hp] at hdepths
    rw [hw.queueDepth, hc.queueDepth, hdepths]
    simp only [CollectPoint.pendingDepth, List.append_nil]
    refine congrArg (List.rtake · 200) (List.map_congr_left fun r hr => ?_)
    rw [(hw.sound r hr).totals]
  · have hlast := congrArg List.getLast? hsnapshots
    rw [List.getLast?_map, List.getLast?_map] at hlast
    rw [queueDepthNow, MetricsCollector.queueDepthNow]
    cases hs : s.snapshots.getLast? with
    | none =>
      cases hc' : c.snapshots.getLast? with
      | none => simp
      | some snapshot => simp [hs, hc'] at hlast
    | some snapshot =>
      cases hc' : c.snapshots.getLast? with
      | none => simp [hs, hc'] at hlast
      | some snapshot' =>
        rw [hs, hc'] at hlast
        exact congrArg ClusterTotals.queueDepth (Option.some.inj hlast)
  · obtain ⟨stored, hstored, hnodes⟩ := hw.nodeStats
    rw [hp, hreplies] at hstored
    have hnil : stored = [] := (List.append_eq_nil_iff.mp hstored.symm).1
    rw [hnodes url, hnil, List.append_nil]
    exact hc.nodeStats url

/-- The first worker answers, the second does not; `current` is called while the round goes on. -/
def oneRound : List (CollectorEvent ℚ) :=
  [.start, .loop, .fetch (metricsReply 2 (.number 40)), .advance 1, .current, .advance 1, .current,
    .current, .current, .current, .advance 1, .fetch .raised, .advance 2, .advance 2, .advance 2,
    .advance 2]

def oneAnswer (url : String) : Option (WorkerMetrics ℚ) :=
  if url = "a" then some ⟨2, 40, 0, 5⟩ else none

def isLoopTop : CollectPoint ℚ → Bool
  | .loopTop => true
  | _ => false

theorem refines_collect_oneRound : ∃ s, (machine id roundTo ["a", "b"]).Run oneRound s ∧
    s.latency.data = [5] ∧
    s.latency.data = (MetricsCollector.collect { workerUrls := ["a", "b"] } oneAnswer).latency ∧
    s.queueDepthNow =
      (MetricsCollector.collect { workerUrls := ["a", "b"] } oneAnswer).queueDepthNow := by
  have hexec : ((machine id roundTo ["a", "b"]).exec (init ["a", "b"]) oneRound).map
      (fun s => (s.latency.data, isLoopTop s.point,
        s.history.rounds.map fun c => decide (∀ p ∈ c.replies, p.2.Tells (oneAnswer p.1)))) =
      some ([5], true, [true]) := by
    decide +kernel
  obtain ⟨s, hs, hr⟩ := Option.map_eq_some_iff.mp hexec
  obtain ⟨hdata, hr⟩ := Prod.mk.inj hr
  obtain ⟨hpoint, hreplies⟩ := Prod.mk.inj hr
  obtain ⟨c, rest, hrounds, hc, hrest⟩ := List.map_eq_cons_iff.mp hreplies
  obtain rfl := List.map_eq_nil_iff.mp hrest
  have hp : s.point = .loopTop := by
    generalize s.point = p at hpoint
    cases p <;> first | rfl | cases hpoint
  have htells := of_decide_eq_true hc
  have hrun := (Machine.run_iff_exec _).mpr hs
  have hall : List.Forall₂ (fun (c : CollectRound ℚ) answer =>
      ∀ p ∈ c.replies, p.2.Tells (answer p.1)) s.history.rounds [oneAnswer] :=
    hrounds ▸ .cons htells .nil
  have href := refines_collect hrun hp hall
  exact ⟨s, hrun, hdata, href.1, href.2.2.2.1⟩

end CollectorThreads
end InferenceCluster
