import InferenceCluster.Sanity.Windows
import InferenceCluster.Spec.CollectorThreads

/-! What the sections of the collector keep: each window holds the end of what was recorded in
it, and the alarms are those that the values raise one after the other. -/

namespace InferenceCluster

variable {K : Type}

/-! ### Alarms -/

section Alarms

variable [Field K] [LinearOrder K] {sqrt : K → K} {round : K → ℕ → K}

/-- A value is more than 3 deviations, which are not 0, from the mean of the ten values or more
before it. -/
def Flagged (sqrt : K → K) (before : List K) (x : K) : Prop :=
  10 ≤ before.length ∧ stdev sqrt before ≠ 0 ∧
    ((3 : ℕ) : K) < |(x - mean before) / stdev sqrt before|

instance (before : List K) (x : K) : Decidable (Flagged sqrt before x) := by
  unfold Flagged
  infer_instance

/-- How many values are far from the mean of the hundred before them. -/
def alarms (sqrt : K → K) (values : List K) : ℕ :=
  (List.range values.length).countP fun i =>
    Flagged sqrt ((values.take i).rtake 100) (values.getD i 0)

theorem alarms_concat (values : List K) (x : K) : alarms sqrt (values ++ [x]) =
    alarms sqrt values + if Flagged sqrt (values.rtake 100) x then 1 else 0 := by
  have hbefore : (List.range values.length).countP (fun i => decide
        (Flagged sqrt (((values ++ [x]).take i).rtake 100) ((values ++ [x]).getD i 0))) =
      alarms sqrt values := by
    refine List.countP_congr fun i hi => ?_
    have hlt := List.mem_range.mp hi
    rw [List.take_append_of_le_length hlt.le, List.getD_eq_getElem?_getD,
      List.getElem?_append_left hlt, ← List.getD_eq_getElem?_getD]
  rw [alarms, List.length_append, List.length_singleton, List.range_succ, List.countP_append,
    hbefore]
  simp [List.countP_cons]

theorem alarms_mono {values values' : List K} (h : values <+: values') :
    alarms sqrt values ≤ alarms sqrt values' := by
  obtain ⟨more, rfl⟩ := h
  induction more using List.reverseRecOn with
  | nil => rw [List.append_nil]
  | append_singleton more x ih =>
    rw [← List.append_assoc, alarms_concat]
    exact ih.trans (Nat.le_add_right _ _)

/-- The detector after the values `checked`. -/
structure AnomalyDetector.Follows (sqrt : K → K) (checked : List K) (det : AnomalyDetector K) :
    Prop where
  maxlen : det.maxlen = 100
  threshold : det.threshold = (3 : ℕ)
  window : det.window = checked.rtake 100
  anomalyCount : det.anomalyCount = alarms sqrt checked

theorem AnomalyDetector.Follows.check {checked : List K} {det : AnomalyDetector K}
    (h : det.Follows sqrt checked) (x : K) :
    (det.check sqrt round x).2.Follows sqrt (checked ++ [x]) := by
  have hwindow : appendMax 100 det.window x = (checked ++ [x]).rtake 100 := by
    rw [h.window, appendMax_rtake]
  have hcount : alarms sqrt (checked ++ [x]) = _ := alarms_concat checked x
  rw [← h.window, ← h.anomalyCount] at hcount
  simp only [AnomalyDetector.check]
  split_ifs with hlen hstdev hz
  · rw [if_neg fun hf => absurd hf.1 (by omega)] at hcount
    exact ⟨h.maxlen, h.threshold, by rw [← hwindow, append, h.maxlen], hcount.symm⟩
  · rw [if_neg fun hf => hf.2.1 hstdev] at hcount
    exact ⟨h.maxlen, h.threshold, by rw [← hwindow, append, h.maxlen], hcount.symm⟩
  · rw [if_pos ⟨not_lt.mp hlen, hstdev, h.threshold ▸ of_decide_eq_true hz⟩] at hcount
    exact ⟨h.maxlen, h.threshold, by rw [← hwindow, append, h.maxlen], hcount.symm⟩
  · rw [if_neg fun hf => hz (decide_eq_true (h.threshold ▸ hf.2.2))] at hcount
    exact ⟨h.maxlen, h.threshold, by rw [← hwindow, append, h.maxlen], hcount.symm⟩

end Alarms

/-! ### Totals -/

section Totals

variable [Field K]

/-- The numbers in a reply, up to the first figure that is none. -/
def WorkerReply.figures (reply : WorkerReply K) : ClusterTotals K :=
  match reply.reading with
  | none => {}
  | some r =>
    let depth := r.depth.toNumber
    let tokens := depth.bind fun _ => r.tokens.toNumber
    let batches := tokens.bind fun _ => r.batches.toNumber
    ⟨depth.getD 0, tokens.getD 0, batches.getD 0⟩

/-- The reading of a reply whose four figures are numbers. -/
def WorkerReply.complete (reply : WorkerReply K) : Option (WorkerReading K) :=
  reply.reading.filter fun r => r.depth.toNumber.isSome && r.tokens.toNumber.isSome &&
    r.batches.toNumber.isSome && r.avgLat.toNumber.isSome

def ClusterTotals.of (replies : List (String × WorkerReply K)) : ClusterTotals K where
  queueDepth := (replies.map fun p => p.2.figures.queueDepth).sum
  tokens := (replies.map fun p => p.2.figures.tokens).sum
  batches := (replies.map fun p => p.2.figures.batches).sum

theorem ClusterTotals.of_skipped {replies : List (String × WorkerReply K)} {url : String}
    {reply : WorkerReply K} (h : reply.reading = none) :
    of (replies ++ [(url, reply)]) = of replies := by
  simp [of, WorkerReply.figures, h]

theorem ClusterTotals.add_of {replies : List (String × WorkerReply K)} {url : String}
    {reply : WorkerReply K} {r : WorkerReading K} (h : reply.reading = some r) :
    ((of replies).add r).1 = of (replies ++ [(url, reply)]) := by
  simp only [add, of, List.map_append, List.map_cons, List.map_nil, List.sum_append,
    List.sum_singleton, WorkerReply.figures, h]
  cases r.depth.toNumber with
  | none => simp
  | some depth =>
    cases r.tokens.toNumber with
    | none => simp
    | some tokens => cases r.batches.toNumber <;> simp

theorem ClusterTotals.complete_eq {t : ClusterTotals K} {reply : WorkerReply K}
    {r : WorkerReading K} (h : reply.reading = some r) :
    reply.complete = if (t.add r).2.isSome then some r else none := by
  rw [WorkerReply.complete, h]
  cases hd : r.depth.toNumber with
  | none => simp [add, hd]
  | some depth =>
    cases ht : r.tokens.toNumber with
    | none => simp [add, hd, ht]
    | some tokens => cases hb : r.batches.toNumber <;> simp [add, hd, ht, hb, Option.filter_some]

theorem ClusterTotals.add_avgLat {t t' : ClusterTotals K} {r : WorkerReading K} {avgLat : K}
    (h : t.add r = (t', some avgLat)) : r.avgLat.toNumber = some avgLat := by
  have hsnd := congrArg Prod.snd h
  simp only [add] at hsnd
  split at hsnd
  · cases hsnd
  split at hsnd
  · cases hsnd
  split at hsnd
  · cases hsnd
  · exact hsnd

/-- The replies whose figures are kept for their worker. -/
def answered (replies : List (String × WorkerReply K)) : List (String × WorkerReading K) :=
  replies.filterMap fun p => p.2.complete.map (Prod.mk p.1)

theorem answered_append (replies replies' : List (String × WorkerReply K)) :
    answered (replies ++ replies') = answered replies ++ answered replies' :=
  List.filterMap_append

/-- The latencies among the figures; a worker that has run no batch has none. -/
def timed [LinearOrder K] (replies : List (String × WorkerReply K)) : List K :=
  (answered replies).filterMap fun p => p.2.avgLat.toNumber.filter (0 < ·)

theorem timed_append [LinearOrder K] (replies replies' : List (String × WorkerReply K)) :
    timed (replies ++ replies') = timed replies ++ timed replies' := by
  rw [timed, answered_append, List.filterMap_append]
  rfl

def lastOf (url : String) (readings : List (String × WorkerReading K)) :
    Option (WorkerReading K) :=
  (readings.filter fun p => p.1 = url).getLast?.map Prod.snd

omit [Field K] in
theorem lastOf_concat (url url' : String) (readings : List (String × WorkerReading K))
    (r : WorkerReading K) : lastOf url (readings ++ [(url', r)]) =
      if url' = url then some r else lastOf url readings := by
  rw [lastOf, List.filter_append]
  split_ifs with h <;> simp [lastOf, h]

end Totals

/-! ### Sections -/

namespace CollectorThreads

variable [Field K] [LinearOrder K] {sqrt : K → K} {round : K → ℕ → K}

/-- Where a reply leads from the loop, with the totals after it. -/
inductive Fetched (url : String) (reply : WorkerReply K) (todo : List String)
    (totals : ClusterTotals K) : CollectPoint K → Prop
  | skipped (h : reply.complete = none) : Fetched url reply todo totals (.polling todo totals)
  | timed {r : WorkerReading K} {avgLat : K} (h : reply.complete = some r)
      (hlat : r.avgLat.toNumber = some avgLat) (hpos : 0 < avgLat) :
      Fetched url reply todo totals (.recording url r avgLat todo totals)
  | untimed {r : WorkerReading K} {avgLat : K} (h : reply.complete = some r)
      (hlat : r.avgLat.toNumber = some avgLat) (hpos : ¬0 < avgLat) :
      Fetched url reply todo totals (.storing url r todo totals)

theorem fetch_eq (s : CollectorThreads K) (url : String) (reply : WorkerReply K)
    (todo : List String) :
    ∃ p, Fetched url reply todo (.of (s.history.replies ++ [(url, reply)])) p ∧
      s.fetch url reply todo (.of s.history.replies) =
        { s with
          point := p
          history.replies := s.history.replies ++ [(url, reply)] } := by
  cases hr : reply.reading with
  | none =>
    refine ⟨_, .skipped (by rw [WorkerReply.complete, hr]; rfl), ?_⟩
    simp only [fetch, hr, ClusterTotals.of_skipped hr]
  | some r =>
    have htotals : _ = ClusterTotals.of (s.history.replies ++ [(url, reply)]) :=
      ClusterTotals.add_of hr
    have hcomplete := ClusterTotals.complete_eq (t := .of s.history.replies) hr
    rcases hadd : (ClusterTotals.of s.history.replies).add r with ⟨t, _ | avgLat⟩
    · rw [hadd] at htotals hcomplete
      refine ⟨_, .skipped hcomplete, ?_⟩
      simp only [fetch, hr, hadd, ← htotals]
    · have hlat := ClusterTotals.add_avgLat hadd
      rw [hadd] at htotals hcomplete
      by_cases hpos : 0 < avgLat
      · refine ⟨_, .timed hcomplete hlat hpos, ?_⟩
        simp only [fetch, hr, hadd, ← htotals, hpos, if_true]
      · refine ⟨_, .untimed hcomplete hlat hpos, ?_⟩
        simp only [fetch, hr, hadd, ← htotals, hpos, if_false]

theorem fetch_reader (s : CollectorThreads K) (url : String) (reply : WorkerReply K)
    (todo : List String) (totals : ClusterTotals K) :
    (s.fetch url reply todo totals).reader = s.reader := by
  unfold fetch
  split
  · rfl
  · split
    · rfl
    · split_ifs <;> rfl

/-- The steps of the collecting thread and of the readers, each with what it needs. -/
inductive Stepped (sqrt : K → K) (round : K → ℕ → K) (s : CollectorThreads K) :
    CollectorEvent K → CollectorThreads K → Prop
  | started (hp : s.point = .notStarted) :
      Stepped sqrt round s .start { s with running := true, point := .loopTop }
  | stopped : Stepped sqrt round s .stop { s with running := false }
  | looped (hp : s.point = .loopTop) : Stepped sqrt round s .loop
      { s with point := if s.running then .polling s.workerUrls {} else .exited }
  | fetched {url : String} {todo : List String} {totals : ClusterTotals K} {reply : WorkerReply K}
      (hp : s.point = .polling (url :: todo) totals) :
      Stepped sqrt round s (.fetch reply) (s.fetch url reply todo totals)
  | recorded {url : String} {r : WorkerReading K} {avgLat ts : K} {todo : List String}
      {totals : ClusterTotals K} (hp : s.point = .recording url r avgLat todo totals) :
      Stepped sqrt round s (.advance ts) { s with
        latency := s.latency.record avgLat
        point := .checking url r avgLat todo totals
        history.latencies := s.history.latencies ++ [avgLat] }
  | checked {url : String} {r : WorkerReading K} {avgLat ts : K} {todo : List String}
      {totals : ClusterTotals K} (hp : s.point = .checking url r avgLat todo totals) :
      Stepped sqrt round s (.advance ts) { s with
        anomaly := (s.anomaly.check sqrt round avgLat).2
        point := .storing url r todo totals }
  | stored {url : String} {r : WorkerReading K} {ts : K} {todo : List String}
      {totals : ClusterTotals K} (hp : s.point = .storing url r todo totals)
      (hlock : s.reader.holdsLock = false) : Stepped sqrt round s (.advance ts) { s with
        nodeStats := s.nodeStats.set url ⟨r, ts⟩
        point := .polling todo totals }
  | summed {totals : ClusterTotals K} {ts : K} (hp : s.point = .polling [] totals) :
      Stepped sqrt round s (.advance ts) { s with
        queueDepth := s.queueDepth.record totals.queueDepth
        point := .measuring totals
        history.depths := s.history.depths ++ [totals.queueDepth] }
  | measured {totals : ClusterTotals K} {ts : K} (hp : s.point = .measuring totals) :
      Stepped sqrt round s (.advance ts)
        { s with point := .counting totals ts (s.latency.stats sqrt round) }
  | counted {totals : ClusterTotals K} {ts ts' : K} {latency : Option (LatencyStats K)}
      (hp : s.point = .counting totals ts latency) : Stepped sqrt round s (.advance ts')
        { s with point := .appending ⟨ts, totals, latency, s.anomaly.anomalyCount⟩ }
  | appended {snapshot : ClusterSnapshot K} {ts : K} (hp : s.point = .appending snapshot)
      (hlock : s.reader.holdsLock = false) : Stepped sqrt round s (.advance ts) { s with
        snapshots := appendMax 100 s.snapshots snapshot
        point := .loopTop
        history.replies := []
        history.rounds :=
          s.history.rounds ++ [⟨s.history.replies, s.history.latencies, snapshot⟩] }
  | read : Stepped sqrt round s .current (s.currentStep sqrt round)

theorem stepped {s s' : CollectorThreads K} {e : CollectorEvent K}
    (h : s.step sqrt round e = some s') : Stepped sqrt round s e s' := by
  cases e with
  | start =>
    simp only [step] at h
    split at h
    · exact Option.some.inj h ▸ .started ‹_›
    · cases h
  | stop => exact Option.some.inj h ▸ .stopped
  | loop =>
    simp only [step] at h
    split at h
    · exact Option.some.inj h ▸ .looped ‹_›
    · cases h
  | fetch reply =>
    simp only [step] at h
    split at h
    · exact Option.some.inj h ▸ .fetched ‹_›
    · cases h
  | advance ts =>
    simp only [step, advance] at h
    split at h
    · exact Option.some.inj h ▸ .recorded ‹_›
    · exact Option.some.inj h ▸ .checked ‹_›
    · split_ifs at h with hlock
      exact Option.some.inj h ▸ .stored ‹_› (Bool.eq_false_iff.mpr hlock)
    · exact Option.some.inj h ▸ .summed ‹_›
    · exact Option.some.inj h ▸ .measured ‹_›
    · exact Option.some.inj h ▸ .counted ‹_›
    · split_ifs at h with hlock
      exact Option.some.inj h ▸ .appended ‹_› (Bool.eq_false_iff.mpr hlock)
    · cases h
  | current => exact Option.some.inj h ▸ .read

end CollectorThreads
end InferenceCluster
