import InferenceCluster.Sanity.CollectorThreads
import InferenceCluster.Sanity.Rounding

/-! What the collector holds in every run, and what a call of `current` returns beside the
collecting thread: its figures are of several moments, which lie close together. -/

namespace InferenceCluster

variable {K : Type} [Field K] [LinearOrder K] {sqrt : K → K} {round : K → ℕ → K}

/-- The statistics of a window in which `values` have been recorded. -/
def windowStats (sqrt : K → K) (round : K → ℕ → K) (maxlen : ℕ) (values : List K) :
    Option (LatencyStats K) :=
  LatencyWindow.stats sqrt round ⟨maxlen, values.rtake maxlen⟩

omit [Field K] [LinearOrder K] in
theorem LatencyWindow.record_rtake (maxlen : ℕ) (values : List K) (x : K) :
    (⟨maxlen, values.rtake maxlen⟩ : LatencyWindow K).record x =
      ⟨maxlen, (values ++ [x]).rtake maxlen⟩ := by
  rw [record, appendMax_rtake]

namespace CollectPoint

/-- The latency that is in no window yet. -/
def unrecorded : CollectPoint K → List K
  | .recording _ _ avgLat _ _ => [avgLat]
  | _ => []

/-- The latency that the detector has not checked yet. -/
def unchecked : CollectPoint K → List K
  | .checking _ _ avgLat _ _ => [avgLat]
  | _ => []

/-- The depth that is recorded and in no snapshot yet. -/
def pendingDepth : CollectPoint K → List K
  | .measuring totals | .counting totals _ _ => [totals.queueDepth]
  | .appending snapshot => [snapshot.totals.queueDepth]
  | _ => []

/-- The reading that is not among the nodes' figures yet. -/
def unstored : CollectPoint K → List (String × WorkerReading K)
  | .recording url r _ _ _ | .checking url r _ _ _ | .storing url r _ _ => [(url, r)]
  | _ => []

/-- The replies of the round are those of the urls asked so far, and the totals are theirs. -/
def Asked (urls : List String) (replies : List (String × WorkerReply K)) : CollectPoint K → Prop
  | .notStarted | .loopTop | .exited => replies = []
  | .polling todo totals | .recording _ _ _ todo totals | .checking _ _ _ todo totals
  | .storing _ _ todo totals => replies.map Prod.fst ++ todo = urls ∧ totals = .of replies
  | .measuring totals | .counting totals _ _ => replies.map Prod.fst = urls ∧ totals = .of replies
  | .appending snapshot => replies.map Prod.fst = urls ∧ snapshot.totals = .of replies

/-- What the snapshot to come says of the latencies. -/
def Measured (sqrt : K → K) (round : K → ℕ → K) (latencies : List K) : CollectPoint K → Prop
  | .counting _ _ latency => latency = windowStats sqrt round 500 latencies
  | .appending snapshot => snapshot.latency = windowStats sqrt round 500 latencies ∧
    snapshot.anomalies = alarms sqrt latencies
  | _ => True

end CollectPoint

/-- A round asks every worker once, in order; its snapshot adds up the replies and tells what
the windows held. -/
structure CollectRound.Sound (sqrt : K → K) (round : K → ℕ → K) (urls : List String)
    (c : CollectRound K) : Prop where
  asked : c.replies.map Prod.fst = urls
  totals : c.snapshot.totals = .of c.replies
  latency : c.snapshot.latency = windowStats sqrt round 500 c.latencies
  anomalies : c.snapshot.anomalies = alarms sqrt c.latencies

/-- All replies so far, of finished rounds and of the one that goes on. -/
def CollectHistory.asked (h : CollectHistory K) : List (String × WorkerReply K) :=
  h.rounds.flatMap CollectRound.replies ++ h.replies

namespace CollectorThreads

/-- What the windows hold, in terms of what has happened. -/
structure Windowed (sqrt : K → K) (round : K → ℕ → K) (urls : List String)
    (s : CollectorThreads K) : Prop where
  workerUrls : s.workerUrls = urls
  recorded : timed s.history.asked = s.history.latencies ++ s.point.unrecorded
  latency : s.latency = ⟨500, s.history.latencies.rtake 500⟩
  anomaly : ∃ checked, s.history.latencies = checked ++ s.point.unchecked ∧
    s.anomaly.Follows sqrt checked ∧ ∀ c ∈ s.history.rounds, c.latencies <+: checked
  queueDepth : s.queueDepth = ⟨200, s.history.depths.rtake 200⟩
  depths : s.history.depths =
    s.history.rounds.map (·.snapshot.totals.queueDepth) ++ s.point.pendingDepth
  snapshots : s.snapshots = (s.history.rounds.map CollectRound.snapshot).rtake 100
  nodeStats : ∃ stored, answered s.history.replies = stored ++ s.point.unstored ∧
    ∀ url, (s.nodeStats.get? url).map NodeStats.reading =
      lastOf url (answered (s.history.rounds.flatMap CollectRound.replies) ++ stored)
  asked : s.point.Asked urls s.history.replies
  measured : s.point.Measured sqrt round s.history.latencies
  sound : ∀ c ∈ s.history.rounds, c.Sound sqrt round urls
  ordered : s.history.rounds.Pairwise fun c c' => c.latencies <+: c'.latencies
  told : ∀ before c, before ++ [c] <+: s.history.rounds →
    c.latencies = timed ((before ++ [c]).flatMap CollectRound.replies)

theorem windowed_init (urls : List String) : Windowed sqrt round urls (init urls) where
  workerUrls := rfl
  recorded := rfl
  latency := by simp [init, List.rtake]
  anomaly :=
    ⟨[], rfl, ⟨rfl, rfl, by simp [init, List.rtake], rfl⟩, fun _ h => absurd h List.not_mem_nil⟩
  queueDepth := by simp [init, List.rtake]
  depths := rfl
  snapshots := by simp [init, List.rtake]
  nodeStats := ⟨[], rfl, fun _ => rfl⟩
  asked := rfl
  measured := trivial
  sound _ h := absurd h List.not_mem_nil
  ordered := .nil
  told before c hp := by simp [init] at hp

/-- A reply is in no window before the sections that follow. -/
theorem Windowed.fetch {urls : List String} {s : CollectorThreads K} {url : String}
    {todo : List String} {totals : ClusterTotals K} (h : Windowed sqrt round urls s)
    (hp : s.point = .polling (url :: todo) totals) (reply : WorkerReply K) :
    Windowed sqrt round urls (s.fetch url reply todo totals) := by
  obtain ⟨hurls, rfl⟩ : s.history.replies.map Prod.fst ++ url :: todo = urls ∧ totals = _ :=
    hp ▸ h.asked
  obtain ⟨checked, hlat, hdet, hrounds⟩ := h.anomaly
  obtain ⟨stored, hstored, hnodes⟩ := h.nodeStats
  have hrec := h.recorded
  have hdepths := h.depths
  have hasked : (s.history.replies ++ [(url, reply)]).map Prod.fst ++ todo = urls := by
    rw [← hurls, List.map_append, List.append_assoc]
    rfl
  have hone : answered (s.history.replies ++ [(url, reply)]) =
      answered s.history.replies ++ (reply.complete.map (Prod.mk url)).toList := by
    rw [answered, answered, List.filterMap_append]
    cases hc : reply.complete <;> simp [hc]
  simp only [hp, CollectPoint.unrecorded, CollectPoint.unchecked, CollectPoint.unstored,
    CollectPoint.pendingDepth, List.append_nil] at hrec hlat hstored hdepths
  rw [hstored] at hone
  obtain ⟨p, hf, heq⟩ := fetch_eq s url reply todo
  rw [heq]
  have hkeep : timed [(url, reply)] = p.unrecorded ∧ p.unchecked = [] ∧ p.pendingDepth = [] ∧
      p.Asked urls (s.history.replies ++ [(url, reply)]) ∧
      p.Measured sqrt round s.history.latencies ∧
      (reply.complete.map (Prod.mk url)).toList = p.unstored := by
    cases hf with
    | skipped hc =>
      refine ⟨?_, rfl, rfl, ⟨hasked, rfl⟩, trivial, by rw [hc]; rfl⟩
      simp [timed, answered, hc, CollectPoint.unrecorded]
    | timed hc hlat hpos | untimed hc hlat hpos =>
      refine ⟨?_, rfl, rfl, ⟨hasked, rfl⟩, trivial, by rw [hc]; rfl⟩
      simp [timed, answered, hc, hlat, hpos, Option.filter_some, CollectPoint.unrecorded]
  obtain ⟨hunrecorded, hunchecked, hpending, hp', hmeasured, hunstored⟩ := hkeep
  exact { h with
    recorded := by
      have happend := timed_append s.history.asked [(url, reply)]
      rw [hrec, hunrecorded] at happend
      rw [← happend, CollectHistory.asked, CollectHistory.asked, List.append_assoc]
    anomaly := ⟨checked, by simp only [hunchecked, hlat, List.append_nil], hdet, hrounds⟩
    depths := by simp only [hpending, hdepths, List.append_nil]
    nodeStats := ⟨stored, hone.trans (by rw [hunstored]), hnodes⟩
    asked := hp'
    measured := hmeasured }

/-- A step that moves the collecting thread and touches no window. -/
theorem Windowed.moved {urls : List String} {s : CollectorThreads K} {p p' : CollectPoint K}
    (h : Windowed sqrt round urls s) (hp : s.point = p) (hunrecorded : p'.unrecorded = p.unrecorded)
    (hunchecked : p'.unchecked = p.unchecked)
    (hpending : p'.pendingDepth = p.pendingDepth) (hunstored : p'.unstored = p.unstored)
    (hasked : p'.Asked urls s.history.replies)
    (hmeasured : p'.Measured sqrt round s.history.latencies) :
    Windowed sqrt round urls { s with point := p' } := by
  subst hp
  exact { h with
    recorded := hunrecorded ▸ h.recorded
    anomaly := hunchecked ▸ h.anomaly
    depths := hpending ▸ h.depths
    nodeStats := hunstored ▸ h.nodeStats
    asked := hasked
    measured := hmeasured }

theorem Windowed.step {urls : List String} {s s' : CollectorThreads K} {e : CollectorEvent K}
    (h : Windowed sqrt round urls s) (hs : Stepped sqrt round s e s') :
    Windowed sqrt round urls s' := by
  obtain ⟨checked, hlat, hdet, hrounds⟩ := h.anomaly
  obtain ⟨stored, hstored, hnodes⟩ := h.nodeStats
  have hrec := h.recorded
  have hdepths := h.depths
  have hasked := h.asked
  have hmeasured := h.measured
  cases hs with
  | fetched hp => exact h.fetch hp _
  | stopped => exact { h with }
  | read =>
    simp only [currentStep]
    split <;> exact { h with }
  | started hp =>
    rw [hp] at hasked
    have hmoved : Windowed sqrt round urls { s with point := .loopTop } :=
      h.moved hp rfl rfl rfl rfl hasked trivial
    exact { hmoved with }
  | looped hp =>
    have hnil : s.history.replies = [] := by
      rw [hp] at hasked
      exact hasked
    split_ifs
    · refine h.moved hp rfl rfl rfl rfl ?_ trivial
      rw [hnil]
      exact ⟨h.workerUrls, rfl⟩
    · exact h.moved hp rfl rfl rfl rfl hnil trivial
  | @recorded url r avgLat ts todo totals hp =>
    rw [hp] at hrec hlat hstored hdepths hasked
    exact { h with
      recorded := hrec.trans (List.append_nil _).symm
      latency := by rw [h.latency, LatencyWindow.record_rtake]
      anomaly := ⟨checked, by rw [hlat]; simp [CollectPoint.unchecked], hdet, hrounds⟩
      depths := hdepths
      nodeStats := ⟨stored, hstored, hnodes⟩
      asked := hasked
      measured := trivial }
  | @checked url r avgLat ts todo totals hp =>
    rw [hp] at hrec hlat hstored hdepths hasked
    exact { h with
      recorded := hrec
      anomaly := ⟨checked ++ [avgLat], hlat.trans (List.append_nil _).symm, hdet.check avgLat,
        fun c hc => (hrounds c hc).trans (List.prefix_append _ _)⟩
      depths := hdepths
      nodeStats := ⟨stored, hstored, hnodes⟩
      asked := hasked
      measured := trivial }
  | @stored url r ts todo totals hp hlock =>
    rw [hp] at hrec hlat hstored hdepths hasked
    refine { h with
      recorded := hrec
      anomaly := ⟨checked, hlat, hdet, hrounds⟩
      depths := hdepths
      nodeStats := ⟨stored ++ [(url, r)], hstored.trans (List.append_nil _).symm, fun url' => ?_⟩
      asked := hasked
      measured := trivial }
    rw [← List.append_assoc, lastOf_concat, PyDict.get?_set]
    by_cases he : url' = url
    · simp [he]
    · rw [if_neg he, if_neg (Ne.symm he), hnodes url']
  | @summed totals ts hp =>
    rw [hp] at hrec hlat hstored hdepths hasked
    exact { h with
      recorded := hrec
      queueDepth := by rw [h.queueDepth, LatencyWindow.record_rtake]
      anomaly := ⟨checked, hlat, hdet, hrounds⟩
      depths := by rw [hdepths]; simp [CollectPoint.pendingDepth]
      nodeStats := ⟨stored, hstored, hnodes⟩
      asked := ⟨(List.append_nil _).symm.trans hasked.1, hasked.2⟩
      measured := trivial }
  | measured hp =>
    rw [hp] at hasked
    exact h.moved hp rfl rfl rfl rfl hasked (congrArg (LatencyWindow.stats sqrt round) h.latency)
  | counted hp =>
    rw [hp] at hlat hasked hmeasured
    refine h.moved hp rfl rfl rfl rfl hasked ⟨hmeasured, ?_⟩
    exact hdet.anomalyCount.trans (congrArg (alarms sqrt) (hlat.trans (List.append_nil _)).symm)
  | @appended snapshot ts hp hlock =>
    rw [hp] at hrec hlat hstored hdepths hasked hmeasured
    simp only [CollectPoint.unchecked, CollectPoint.unstored, CollectPoint.pendingDepth,
      List.append_nil] at hlat hstored hdepths
    refine { h with
      recorded := ?_
      anomaly := ⟨checked, by rw [hlat]; exact (List.append_nil _).symm, hdet, ?_⟩
      depths := by rw [hdepths]; simp [CollectPoint.pendingDepth]
      snapshots := by rw [h.snapshots, appendMax_rtake, List.map_append]; rfl
      nodeStats := ⟨[], rfl, fun url => ?_⟩
      asked := rfl
      measured := trivial
      sound := ?_
      ordered := ?_
      told := fun before c hp => ?_ }
    · refine Eq.trans ?_ hrec
      simp [CollectHistory.asked]
    · rw [List.forall_mem_append, List.forall_mem_singleton]
      exact ⟨hrounds, hlat ▸ List.prefix_rfl⟩
    · rw [hnodes url, List.append_nil, List.flatMap_append, ← hstored, answered, answered, answered,
        ← List.filterMap_append]
      simp
    · rw [List.forall_mem_append, List.forall_mem_singleton]
      exact ⟨h.sound, hasked.1, hasked.2, hmeasured.1, hmeasured.2⟩
    · rw [List.pairwise_append]
      refine ⟨h.ordered, List.pairwise_singleton _ _, fun c hc c' hc' => ?_⟩
      rw [List.mem_singleton.mp hc', hlat]
      exact hrounds c hc
    · rcases List.prefix_concat_iff.mp hp with heq | hp
      · obtain ⟨rfl, hc⟩ := List.append_inj' heq rfl
        obtain rfl := List.singleton_inj.mp hc
        refine Eq.trans ?_ (hrec.symm.trans ?_)
        · exact (List.append_nil _).symm
        · simp [CollectHistory.asked]
      · exact h.told before c hp

theorem windowed_of_run {urls : List String} {es : List (CollectorEvent K)}
    {s : CollectorThreads K} (h : (machine sqrt round urls).Run es s) :
    Windowed sqrt round urls s := by
  induction h with
  | nil => exact windowed_init urls
  | snoc _ hs ih => exact ih.step (stepped hs)

theorem Windowed.getLast?_snapshots {urls : List String} {s : CollectorThreads K}
    (h : Windowed sqrt round urls s) :
    s.snapshots.getLast? = s.history.rounds.getLast?.map CollectRound.snapshot := by
  rw [h.snapshots, getLast?_rtake (Nat.zero_lt_succ 99), List.getLast?_map]

theorem Windowed.latencies_prefix {urls : List String} {s : CollectorThreads K}
    (h : Windowed sqrt round urls s) :
    ∀ c ∈ s.history.rounds, c.latencies <+: s.history.latencies := by
  obtain ⟨checked, hlat, -, hrounds⟩ := h.anomaly
  exact fun c hc => (hrounds c hc).trans (hlat ▸ List.prefix_append _ _)

/-- In every run: each window holds the last values recorded in it, and the snapshots are those
of the last hundred rounds. A round asks every worker once and adds up what the replies have as
numbers; its alarms are those that the latencies in the replies so far raise, each against the
hundred before it, and they never get fewer. The figures kept for a worker are those of its last
complete reply. -/
theorem collector_history {urls : List String} {es : List (CollectorEvent K)}
    {s : CollectorThreads K} (h : (machine sqrt round urls).Run es s) :
    s.latency.data = s.history.latencies.rtake 500 ∧
    s.queueDepth.data = s.history.depths.rtake 200 ∧
    s.snapshots = (s.history.rounds.map CollectRound.snapshot).rtake 100 ∧
    s.queueDepthNow =
      (s.history.rounds.getLast?.map fun c => (ClusterTotals.of c.replies).queueDepth).getD 0 ∧
    (∀ c ∈ s.history.rounds, c.Sound sqrt round urls ∧ c.latencies <+: s.history.latencies) ∧
    s.history.rounds.Pairwise (fun c c' =>
      c.latencies <+: c'.latencies ∧ c.snapshot.anomalies ≤ c'.snapshot.anomalies) ∧
    (∀ before c, before ++ [c] <+: s.history.rounds →
      c.latencies = timed ((before ++ [c]).flatMap CollectRound.replies)) ∧
    (s.point = .loopTop →
      s.history.latencies = timed (s.history.rounds.flatMap CollectRound.replies) ∧
      s.anomaly.anomalyCount = alarms sqrt s.history.latencies ∧
      ∀ url, (s.nodeStats.get? url).map NodeStats.reading =
        lastOf url (answered (s.history.rounds.flatMap CollectRound.replies))) := by
  have hw := windowed_of_run h
  obtain ⟨checked, hlat, hdet, -⟩ := hw.anomaly
  obtain ⟨stored, hstored, hnodes⟩ := hw.nodeStats
  refine ⟨by rw [hw.latency], by rw [hw.queueDepth], hw.snapshots, ?_,
    fun c hc => ⟨hw.sound c hc, hw.latencies_prefix c hc⟩, ?_, hw.told, fun hp => ?_⟩
  · rw [queueDepthNow, hw.getLast?_snapshots]
    cases hl : s.history.rounds.getLast? with
    | none => rfl
    | some c =>
      exact congrArg ClusterTotals.queueDepth (hw.sound c (List.mem_of_getLast? hl)).totals
  · refine hw.ordered.imp_of_mem fun hc hc' hle => ⟨hle, ?_⟩
    rw [(hw.sound _ hc).anomalies, (hw.sound _ hc').anomalies]
    exact alarms_mono hle
  · have hasked := hw.asked
    have hrec := hw.recorded
    rw [hp] at hrec hlat hstored hasked
    have hnone : s.history.replies = [] := hasked
    simp only [CollectHistory.asked, hnone, CollectPoint.unrecorded, CollectPoint.unchecked,
      List.append_nil] at hrec hlat
    rw [hnone] at hstored
    have hnil : stored = [] := (List.append_eq_nil_iff.mp hstored.symm).1
    refine ⟨hrec.symm, by rw [hdet.anomalyCount, hlat], fun url => ?_⟩
    rw [hnodes url, hnil, List.append_nil]

def metricsReply (depth : ℚ) (tokens : Json ℚ) : WorkerReply ℚ :=
  .replied 200 (.object [("scheduler", .object [("queue", .object [("queue_depth", .number depth)]),
    ("total_tokens_generated", tokens), ("avg_batch_latency_ms", .number 5)])])

/-- A round in which the second worker's token count is missing its number; in the next one the
first worker is asked, and its latency recorded, while `current` is called. -/
def beside : List (CollectorEvent ℚ) :=
  [.start, .loop, .fetch (metricsReply 2 (.number 40)), .advance 1, .advance 1, .advance 1,
    .fetch (metricsReply 3 .null), .advance 2, .advance 2, .advance 2, .advance 2, .loop, .current,
    .fetch (metricsReply 1 (.number 50)), .advance 3, .current, .current, .current, .current]

theorem collector_history_beside : ∃ s, (machine id roundTo ["a", "b"]).Run beside s ∧
    s.queueDepthNow = 5 ∧ s.latency.data = [5, 5] ∧
    (∀ c ∈ s.history.rounds,
      c.Sound id roundTo ["a", "b"] ∧ c.latencies <+: s.history.latencies) := by
  have hexec : ((machine id roundTo ["a", "b"]).exec (init ["a", "b"]) beside).map
      (fun s => (s.queueDepthNow, s.latency.data)) = some (5, [5, 5]) := by
    decide +kernel
  obtain ⟨s, hs, hr⟩ := Option.map_eq_some_iff.mp hexec
  obtain ⟨hdepth, hdata⟩ := Prod.mk.inj hr
  have hrun := (Machine.run_iff_exec _).mpr hs
  exact ⟨s, hrun, hdepth, hdata, (collector_history hrun).2.2.2.2.1⟩

end CollectorThreads

/-! ### Calls of `current` -/

/-- What a round has recorded is in `values`, and these have all been recorded by now. -/
structure CollectHistory.Seen (h : CollectHistory K) (rounds : List (CollectRound K))
    (values : List K) : Prop where
  covers : ∀ c ∈ rounds, c.latencies <+: values
  recorded : values <+: h.latencies

/-- A queue window of the rounds and of one depth more at the most. -/
def QueueSeen (sqrt : K → K) (round : K → ℕ → K) (rounds : List (CollectRound K))
    (queue : Option (LatencyStats K)) : Prop :=
  ∃ more : List K, more.length ≤ 1 ∧ queue =
    windowStats sqrt round 200 (rounds.map (·.snapshot.totals.queueDepth) ++ more)

/-- The latency window is that of `seen`, the alarms are those of a reading later: at most the
last value of `seen` is not among the checked ones. -/
def FiguresSeen (sqrt : K → K) (round : K → ℕ → K) (h : CollectHistory K)
    (rounds : List (CollectRound K)) (latency : Option (LatencyStats K)) (anomalies : ℕ) : Prop :=
  ∃ seen checked, h.Seen rounds seen ∧ h.Seen rounds checked ∧
    seen.length ≤ checked.length + 1 ∧ latency = windowStats sqrt round 500 seen ∧
    anomalies = alarms sqrt checked

/-- The answer shows the end of `rounds`, and windows that hold a little more. The figures by
worker are of these rounds and of `during`, the replies of its first workers that the round under
way had stored. -/
structure CurrentResponse.Coherent (sqrt : K → K) (round : K → ℕ → K) (urls : List String)
    (h : CollectHistory K) (rounds : List (CollectRound K)) (r : CurrentResponse K) : Prop where
  finished : rounds <+: h.rounds
  latest : r.latestSnapshot = rounds.getLast?.map CollectRound.snapshot
  queue : QueueSeen sqrt round rounds r.queueWindow
  figures : FiguresSeen sqrt round h rounds r.latencyWindow r.anomalyCount
  nodeStats : ∃ during, rounds.flatMap CollectRound.replies ++ during <+: h.asked ∧
    during.map Prod.fst <+: urls ∧
    ∀ url, (r.nodeStats.get? url).map NodeStats.reading =
      lastOf url (answered (rounds.flatMap CollectRound.replies ++ during))

/-- What has been read so far; the rounds do not change while the lock is held. -/
def CurrentPoint.Read (sqrt : K → K) (round : K → ℕ → K) (urls : List String)
    (h : CollectHistory K) : CurrentPoint K → Prop
  | .notCalled => True
  | .entered latest => latest = h.rounds.getLast?.map CollectRound.snapshot
  | .latencies latest latency => latest = h.rounds.getLast?.map CollectRound.snapshot ∧
    ∃ seen, h.Seen h.rounds seen ∧ latency = windowStats sqrt round 500 seen
  | .queues latest latency queue => latest = h.rounds.getLast?.map CollectRound.snapshot ∧
    QueueSeen sqrt round h.rounds queue ∧
    ∃ seen, h.Seen h.rounds seen ∧ latency = windowStats sqrt round 500 seen
  | .counted latest latency queue anomalies =>
    latest = h.rounds.getLast?.map CollectRound.snapshot ∧ QueueSeen sqrt round h.rounds queue ∧
    FiguresSeen sqrt round h h.rounds latency anomalies
  | .returned r => ∃ rounds, r.Coherent sqrt round urls h rounds

/-- What a step adds to the history; the rounds wait for the lock. -/
structure CollectHistory.Grows (locked : Bool) (h h' : CollectHistory K) : Prop where
  latencies : h.latencies <+: h'.latencies
  rounds : h.rounds <+: h'.rounds
  asked : h.asked <+: h'.asked
  waits : locked = true → h'.rounds = h.rounds

omit [LinearOrder K] in
theorem CollectHistory.Seen.mono {locked : Bool} {h h' : CollectHistory K}
    {rounds : List (CollectRound K)} {values : List K} (hs : h.Seen rounds values)
    (hg : h.Grows locked h') : h'.Seen rounds values :=
  ⟨hs.covers, hs.recorded.trans hg.latencies⟩

theorem FiguresSeen.mono {locked : Bool} {h h' : CollectHistory K}
    {rounds : List (CollectRound K)} {latency : Option (LatencyStats K)} {anomalies : ℕ}
    (hf : FiguresSeen sqrt round h rounds latency anomalies) (hg : h.Grows locked h') :
    FiguresSeen sqrt round h' rounds latency anomalies := by
  obtain ⟨seen, checked, hseen, hchecked, hrest⟩ := hf
  exact ⟨seen, checked, hseen.mono hg, hchecked.mono hg, hrest⟩

theorem CurrentPoint.Read.mono {urls : List String} {h h' : CollectHistory K}
    {p : CurrentPoint K} (hr : p.Read sqrt round urls h) (hg : h.Grows p.holdsLock h') :
    p.Read sqrt round urls h' := by
  cases p with
  | notCalled => trivial
  | entered =>
    have hrounds := hg.waits rfl
    rw [Read, hrounds]
    exact hr
  | latencies =>
    have hrounds := hg.waits rfl
    obtain ⟨hlatest, seen, hseen, hlat⟩ := hr
    rw [Read, hrounds]
    exact ⟨hlatest, seen, hseen.mono hg, hlat⟩
  | queues =>
    have hrounds := hg.waits rfl
    obtain ⟨hlatest, hqueue, seen, hseen, hlat⟩ := hr
    rw [Read, hrounds]
    exact ⟨hlatest, hqueue, seen, hseen.mono hg, hlat⟩
  | counted =>
    have hrounds := hg.waits rfl
    obtain ⟨hlatest, hqueue, hfigures⟩ := hr
    rw [Read, hrounds]
    exact ⟨hlatest, hqueue, hfigures.mono hg⟩
  | returned r =>
    obtain ⟨rounds, hc⟩ := hr
    obtain ⟨during, hasked, hurls, hnodes⟩ := hc.nodeStats
    exact ⟨rounds, hc.finished.trans hg.rounds, hc.latest, hc.queue, hc.figures.mono hg, during,
      hasked.trans hg.asked, hurls, hnodes⟩

namespace CollectorThreads

theorem Windowed.grows {urls : List String} {s s' : CollectorThreads K} {e : CollectorEvent K}
    (h : Windowed sqrt round urls s) (hs : Stepped sqrt round s e s') :
    s.history.Grows s.reader.holdsLock s'.history := by
  have hsame : s.history.Grows s.reader.holdsLock s.history :=
    ⟨List.prefix_rfl, List.prefix_rfl, List.prefix_rfl, fun _ => rfl⟩
  cases hs with
  | recorded => exact { hsame with latencies := List.prefix_append _ _ }
  | appended hp hlock =>
    refine ⟨List.prefix_rfl, List.prefix_append _ _, ?_, fun hl => ?_⟩
    · simp [CollectHistory.asked]
    · rw [hlock] at hl
      cases hl
  | @fetched url todo totals reply hp =>
    obtain ⟨-, rfl⟩ : s.history.replies.map Prod.fst ++ url :: todo = urls ∧ totals = _ :=
      hp ▸ h.asked
    obtain ⟨p, -, heq⟩ := fetch_eq s url reply todo
    rw [heq]
    refine { hsame with asked := ?_ }
    simp [CollectHistory.asked]
  | summed => exact { hsame with }
  | read =>
    simp only [currentStep]
    split <;> exact hsame
  | _ => exact hsame

/-- The round has asked its first workers. -/
theorem Windowed.asked_prefix {urls : List String} {s : CollectorThreads K}
    (h : Windowed sqrt round urls s) : s.history.replies.map Prod.fst <+: urls := by
  have hasked := h.asked
  cases hp : s.point with
  | notStarted | loopTop | exited =>
    rw [hp] at hasked
    rw [show s.history.replies = [] from hasked]
    exact List.nil_prefix
  | polling todo totals | recording url r avgLat todo totals | checking url r avgLat todo totals
  | storing url r todo totals =>
    rw [hp] at hasked
    exact ⟨todo, hasked.1⟩
  | measuring totals | counting totals ts latency | appending snapshot =>
    rw [hp] at hasked
    exact hasked.1 ▸ List.prefix_rfl

/-- The figures by worker are of the finished rounds and of the first replies of the round. -/
theorem Windowed.stored {urls : List String} {s : CollectorThreads K}
    (h : Windowed sqrt round urls s) : ∃ during, during <+: s.history.replies ∧
      ∀ url, (s.nodeStats.get? url).map NodeStats.reading =
        lastOf url (answered (s.history.rounds.flatMap CollectRound.replies ++ during)) := by
  obtain ⟨stored, hstored, hnodes⟩ := h.nodeStats
  obtain ⟨during, rest, hreplies, hduring, -⟩ := List.filterMap_eq_append_iff.mp hstored
  refine ⟨during, hreplies ▸ List.prefix_append _ _, fun url => ?_⟩
  rw [hnodes url, answered_append, show answered during = stored from hduring]

theorem Windowed.read_current {urls : List String} {s : CollectorThreads K}
    (h : Windowed sqrt round urls s) (hr : s.reader.Read sqrt round urls s.history) :
    (s.currentStep sqrt round).reader.Read sqrt round urls s.history := by
  obtain ⟨checked, hlat, hdet, hrounds⟩ := h.anomaly
  have hseen : s.history.Seen s.history.rounds s.history.latencies :=
    ⟨h.latencies_prefix, List.prefix_rfl⟩
  have hchecked : s.history.Seen s.history.rounds checked :=
    ⟨hrounds, hlat ▸ List.prefix_append _ _⟩
  cases hp : s.reader with
  | notCalled | returned =>
    simp only [currentStep, hp]
    exact h.getLast?_snapshots
  | entered latest =>
    rw [hp] at hr
    simp only [currentStep, hp]
    exact ⟨hr, _, hseen, congrArg (LatencyWindow.stats sqrt round) h.latency⟩
  | latencies latest latency =>
    rw [hp] at hr
    simp only [currentStep, hp]
    have hpending : s.point.pendingDepth.length ≤ 1 := by
      unfold CollectPoint.pendingDepth
      split <;> simp
    refine ⟨hr.1, ⟨s.point.pendingDepth, hpending, ?_⟩, hr.2⟩
    rw [h.queueDepth, h.depths, windowStats]
  | queues latest latency queue =>
    rw [hp] at hr
    simp only [currentStep, hp]
    obtain ⟨hlatest, hqueue, seen, hseen', hlatency⟩ := hr
    refine ⟨hlatest, hqueue, seen, checked, hseen', hchecked, ?_, hlatency, hdet.anomalyCount⟩
    have hle := hseen'.recorded.length_le
    have hone : s.point.unchecked.length ≤ 1 := by
      unfold CollectPoint.unchecked
      split <;> simp
    rw [hlat, List.length_append] at hle
    omega
  | counted latest latency queue anomalies =>
    rw [hp] at hr
    simp only [currentStep, hp]
    obtain ⟨during, hduring, hnodes⟩ := h.stored
    obtain ⟨hlatest, hqueue, hfigures⟩ := hr
    refine ⟨s.history.rounds, List.prefix_rfl, hlatest, hqueue, hfigures, during, ?_,
      (hduring.map Prod.fst).trans h.asked_prefix, hnodes⟩
    exact (List.prefix_append_right_inj _).mpr hduring

theorem read_of_run {urls : List String} {es : List (CollectorEvent K)} {s : CollectorThreads K}
    (h : (machine sqrt round urls).Run es s) : s.reader.Read sqrt round urls s.history := by
  induction h with
  | nil => exact trivial
  | snoc hr hs ih =>
    have hw := windowed_of_run hr
    have hstep := stepped hs
    have hmono := ih.mono (hw.grows hstep)
    cases hstep with
    | read =>
      have hread := hw.read_current ih
      simp only [currentStep] at hread ⊢
      split at hread <;> exact hread
    | fetched => rwa [fetch_reader]
    | _ => exact hmono

/-- Beside the collecting thread, the answer of `current` shows the end of some rounds, figures by
worker that are theirs but for what the next round has stored already, windows that hold what these
recorded and little more, and at least the alarms of its snapshot. -/
theorem current_coherent {urls : List String} {es : List (CollectorEvent K)}
    {s : CollectorThreads K} {r : CurrentResponse K} (h : (machine sqrt round urls).Run es s)
    (hr : s.reader = .returned r) :
    ∃ rounds, r.Coherent sqrt round urls s.history rounds ∧
      ∀ snapshot ∈ r.latestSnapshot, snapshot.anomalies ≤ r.anomalyCount := by
  have hread := read_of_run h
  rw [hr] at hread
  obtain ⟨rounds, hc⟩ := hread
  refine ⟨rounds, hc, fun snapshot hs => ?_⟩
  obtain ⟨seen, checked, -, hchecked, -, -, hcount⟩ := hc.figures
  rw [hc.latest] at hs
  obtain ⟨c, hc', rfl⟩ := Option.map_eq_some_iff.mp hs
  have hmem := List.mem_of_getLast? hc'
  rw [((windowed_of_run h).sound c (hc.finished.subset hmem)).anomalies, hcount]
  exact alarms_mono (hchecked.covers c hmem)

/-- The second round has stored the first worker's figures when `current` is called. -/
def ahead : List (CollectorEvent ℚ) :=
  [.start, .loop, .fetch (metricsReply 2 (.number 40)), .advance 1, .advance 1, .advance 1,
    .fetch .raised, .advance 2, .advance 2, .advance 2, .advance 2, .loop,
    .fetch (metricsReply 7 (.number 50)), .advance 3, .advance 3, .advance 3, .current, .current,
    .current, .current, .current]

theorem current_coherent_ahead : ∃ s r,
    (machine id roundTo ["a", "b"]).Run ahead s ∧ s.reader = .returned r ∧
    r.latestSnapshot.map (fun c => c.totals.queueDepth) = some 2 ∧
    (r.nodeStats.get? "a").bind (fun n => n.reading.depth.toNumber) = some 7 ∧
    ∃ rounds, r.Coherent id roundTo ["a", "b"] s.history rounds ∧
      ∀ snapshot ∈ r.latestSnapshot, snapshot.anomalies ≤ r.anomalyCount := by
  have hexec : ((machine id roundTo ["a", "b"]).exec (init ["a", "b"]) ahead).map
      (fun s => match s.reader with
        | .returned r => some (r.latestSnapshot.map (fun c => c.totals.queueDepth),
            (r.nodeStats.get? "a").bind fun n => n.reading.depth.toNumber)
        | _ => none) = some (some (some 2, some 7)) := by
    decide +kernel
  obtain ⟨s, hs, hr⟩ := Option.map_eq_some_iff.mp hexec
  split at hr
  · rename_i r hreader
    obtain ⟨hlatest, hfigures⟩ := Prod.mk.inj (Option.some.inj hr)
    have hrun := (Machine.run_iff_exec _).mpr hs
    exact ⟨s, r, hrun, hreader, hlatest, hfigures, current_coherent hrun hreader⟩
  · cases hr

end CollectorThreads
end InferenceCluster
