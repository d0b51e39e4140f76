import InferenceCluster.Spec.Tuning
import InferenceCluster.Spec.Windows

/-! The collector of `metrics/collector.py` thread by thread: the one that runs `_loop`, and
those that call `current`. A section under a lock is one step. -/

namespace InferenceCluster

/-! ### Answers -/

namespace Json

variable {K : Type}

/-- `data.get(key, default)`, which only a dictionary has. -/
def get (data : Json K) (key : String) (default : Json K) : Option (Json K) :=
  match data with
  | .object fields => some ((PyDict.find key fields).getD default)
  | _ => none

/-- The operand of `+=` and of `>`; a bool is a number. -/
def toNumber [Zero K] [One K] : Json K → Option K
  | .number x => some x
  | .bool b => some (if b then 1 else 0)
  | _ => none

end Json

/-- What comes back from a worker; `raised` is for the request and for `json()`. -/
inductive WorkerReply (K : Type) where
  | raised
  | replied (status : ℕ) (data : Json K)

/-- What `_collect` takes out of an answer. -/
structure WorkerReading (K : Type) where
  depth : Json K
  tokens : Json K
  batches : Json K
  avgLat : Json K
  cache : Json K

structure NodeStats (K : Type) where
  reading : WorkerReading K
  ts : K

structure ClusterTotals (K : Type) [Zero K] where
  queueDepth : K := 0
  tokens : K := 0
  batches : K := 0
  deriving DecidableEq

structure ClusterSnapshot (K : Type) [Zero K] where
  ts : K
  totals : ClusterTotals K
  latency : Option (LatencyStats K)
  anomalies : ℕ
  deriving DecidableEq

/-- `current`; the latest snapshot is empty before the first. -/
structure CurrentResponse (K : Type) [Zero K] where
  latestSnapshot : Option (ClusterSnapshot K)
  latencyWindow : Option (LatencyStats K)
  queueWindow : Option (LatencyStats K)
  anomalyCount : ℕ
  nodeStats : PyDict String (NodeStats K)

section Replies

variable {K : Type} [Field K]

def WorkerReply.reading : WorkerReply K → Option (WorkerReading K)
  | .raised => none
  | .replied status data =>
    if status ≠ 200 then none
    else do
      let sched ← data.get "scheduler" (.object [])
      let queue ← sched.get "queue" (.object [])
      let depth ← queue.get "queue_depth" (.number 0)
      let tokens ← sched.get "total_tokens_generated" (.number 0)
      let batches ← sched.get "batches_processed" (.number 0)
      let avgLat ← sched.get "avg_batch_latency_ms" (.number 0)
      let cache ← data.get "cache" (.object [])
      return { depth, tokens, batches, avgLat, cache }

/-- The three `+=` and the comparison after them; what has been added when one of them raises
stays added. -/
def ClusterTotals.add (t : ClusterTotals K) (r : WorkerReading K) : ClusterTotals K × Option K :=
  match r.depth.toNumber with
  | none => (t, none)
  | some depth =>
    let t := { t with queueDepth := t.queueDepth + depth }
    match r.tokens.toNumber with
    | none => (t, none)
    | some tokens =>
      let t := { t with tokens := t.tokens + tokens }
      match r.batches.toNumber with
      | none => (t, none)
      | some batches => ({ t with batches := t.batches + batches }, r.avgLat.toNumber)

end Replies

/-! ### Threads -/

/-- Where the collecting thread stands; `todo` are the urls that it has not asked yet. -/
inductive CollectPoint (K : Type) [Zero K] where
  | notStarted
  | loopTop
  | polling (todo : List String) (totals : ClusterTotals K)
  | recording (url : String) (r : WorkerReading K) (avgLat : K) (todo : List String)
      (totals : ClusterTotals K)
  | checking (url : String) (r : WorkerReading K) (avgLat : K) (todo : List String)
      (totals : ClusterTotals K)
  | storing (url : String) (r : WorkerReading K) (todo : List String) (totals : ClusterTotals K)
  | measuring (totals : ClusterTotals K)
  | counting (totals : ClusterTotals K) (ts : K) (latency : Option (LatencyStats K))
  | appending (snapshot : ClusterSnapshot K)
  | exited

/-- Where a call of `current` stands: it holds the collector's lock from `entered` on. -/
inductive CurrentPoint (K : Type) [Zero K] where
  | notCalled
  | entered (latest : Option (ClusterSnapshot K))
  | latencies (latest : Option (ClusterSnapshot K)) (latency : Option (LatencyStats K))
  | queues (latest : Option (ClusterSnapshot K)) (latency queue : Option (LatencyStats K))
  | counted (latest : Option (ClusterSnapshot K)) (latency queue : Option (LatencyStats K))
      (anomalies : ℕ)
  | returned (r : CurrentResponse K)

def CurrentPoint.holdsLock {K : Type} [Zero K] : CurrentPoint K → Bool
  | .notCalled | .returned _ => false
  | _ => true

/-- A finished `_collect`: its replies, the latencies recorded by then, its snapshot. -/
structure CollectRound (K : Type) [Zero K] where
  replies : List (String × WorkerReply K)
  latencies : List K
  snapshot : ClusterSnapshot K

/-- What has happened so far, `replies` in the round that goes on; no code reads it. -/
structure CollectHistory (K : Type) [Zero K] where
  latencies : List K := []
  depths : List K := []
  replies : List (String × WorkerReply K) := []
  rounds : List (CollectRound K) := []

structure CollectorThreads (K : Type) [Zero K] where
  workerUrls : List String
  latency : LatencyWindow K := { maxlen := 500 }
  queueDepth : LatencyWindow K := { maxlen := 200 }
  anomaly : AnomalyDetector K
  snapshots : List (ClusterSnapshot K) := []
  nodeStats : PyDict String (NodeStats K) := PyDict.empty
  running : Bool := false
  point : CollectPoint K := .notStarted
  reader : CurrentPoint K := .notCalled
  history : CollectHistory K := {}

/-- `advance` is the next section of the collecting thread, `ts` what the clock reads there. -/
inductive CollectorEvent (K : Type) where
  | start
  | stop
  | loop
  | fetch (reply : WorkerReply K)
  | advance (ts : K)
  | current

namespace CollectorThreads

variable {K : Type} [Field K] [LinearOrder K] (sqrt : K → K) (round : K → ℕ → K)

/-- One turn of the loop of `_collect`, up to its first section. -/
def fetch (s : CollectorThreads K) (url : String) (reply : WorkerReply K) (todo : List String)
    (totals : ClusterTotals K) : CollectorThreads K :=
  let s := { s with history.replies := s.history.replies ++ [(url, reply)] }
  match reply.reading with
  | none => { s with point := .polling todo totals }
  | some r =>
    match totals.add r with
    | (totals, none) => { s with point := .polling todo totals }
    | (totals, some avgLat) =>
      if 0 < avgLat then { s with point := .recording url r avgLat todo totals }
      else { s with point := .storing url r todo totals }

/-- The sections that store and append wait for the collector's lock. -/
def advance (s : CollectorThreads K) (ts : K) : Option (CollectorThreads K) :=
  match s.point with
  | .recording url r avgLat todo totals => some { s with
      latency := s.latency.record avgLat
      point := .checking url r avgLat todo totals
      history.latencies := s.history.latencies ++ [avgLat] }
  | .checking url r avgLat todo totals => some { s with
      anomaly := (s.anomaly.check sqrt round avgLat).2
      point := .storing url r todo totals }
  | .storing url r todo totals =>
    if s.reader.holdsLock then none
    else some { s with
      nodeStats := s.nodeStats.set url ⟨r, ts⟩
      point := .polling todo totals }
  | .polling [] totals => some { s with
      queueDepth := s.queueDepth.record totals.queueDepth
      point := .measuring totals
      history.depths := s.history.depths ++ [totals.queueDepth] }
  | .measuring totals =>
    some { s with point := .counting totals ts (s.latency.stats sqrt round) }
  | .counting totals ts latency =>
    some { s with point := .appending ⟨ts, totals, latency, s.anomaly.anomalyCount⟩ }
  | .appending snapshot =>
    if s.reader.holdsLock then none
    else some { s with
      snapshots := appendMax 100 s.snapshots snapshot
      point := .loopTop
      history.replies := []
      history.rounds :=
        s.history.rounds ++ [⟨s.history.replies, s.history.latencies, snapshot⟩] }
  | _ => none

/-- The next section of `current`. -/
def currentStep (s : CollectorThreads K) : CollectorThreads K :=
  match s.reader with
  | .notCalled | .returned _ => { s with reader := .entered s.snapshots.getLast? }
  | .entered latest => { s with reader := .latencies latest (s.latency.stats sqrt round) }
  | .latencies latest latency =>
    { s with reader := .queues latest latency (s.queueDepth.stats sqrt round) }
  | .queues latest latency queue =>
    { s with reader := .counted latest latency queue s.anomaly.anomalyCount }
  | .counted latest latency queue anomalies =>
    { s with reader := .returned ⟨latest, latency, queue, anomalies, s.nodeStats⟩ }

def queueDepthNow (s : CollectorThreads K) : K :=
  match s.snapshots.getLast? with
  | none => 0
  | some snapshot => snapshot.totals.queueDepth

def step (s : CollectorThreads K) : CollectorEvent K → Option (CollectorThreads K)
  | .start =>
    match s.point with
    | .notStarted => some { s with running := true, point := .loopTop }
    | _ => none
  | .stop => some { s with running := false }
  | .loop =>
    match s.point with
    | .loopTop =>
      some { s with point := if s.running then .polling s.workerUrls {} else .exited }
    | _ => none
  | .fetch reply =>
    match s.point with
    | .polling (url :: todo) totals => some (s.fetch url reply todo totals)
    | _ => none
  | .advance ts => s.advance sqrt round ts
  | .current => some (s.currentStep sqrt round)

def init (workerUrls : List String) : CollectorThreads K :=
  { workerUrls, anomaly := { maxlen := 100, threshold := ((3 : ℕ) : K) } }

def machine (workerUrls : List String) : Machine (CollectorThreads K) (CollectorEvent K) :=
  ⟨init workerUrls, step sqrt round⟩

end CollectorThreads
end InferenceCluster
