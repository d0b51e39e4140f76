import InferenceCluster.Spec.Router

/-! The collector of `metrics/collector.py` beside the router's system. What the latency
window and the anomaly detector make of the values recorded in them is in `Spec.Windows`. -/

namespace InferenceCluster

/-- What `_collect` reads in an answer of `/metrics`, with its defaults. -/
structure WorkerMetrics (K : Type) [Zero K] where
  queueDepth : ℕ := 0
  tokens : ℕ := 0
  batches : ℕ := 0
  avgLatencyMs : K := 0

structure Snapshot where
  clusterQueueDepth : ℕ := 0
  clusterTokens : ℕ := 0
  clusterBatches : ℕ := 0
  deriving DecidableEq

/-- `deque.append` with a `maxlen`. -/
def appendMax {α : Type} (maxlen : ℕ) (l : List α) (x : α) : List α :=
  (l ++ [x]).drop (l.length + 1 - maxlen)

/-- `latency` holds the recorded latencies, each of which the anomaly detector has checked. -/
structure MetricsCollector (K : Type) [Zero K] where
  workerUrls : List String
  latency : List K := []
  queueDepth : List ℕ := []
  snapshots : List Snapshot := []
  nodeStats : PyDict String (WorkerMetrics K) := PyDict.empty

namespace MetricsCollector

variable {K : Type} [Zero K]

section Collect

variable [LT K] [DecidableLT K]

/-- One turn of the loop of `_collect`: a request that fails or is not answered with status
200 is skipped. -/
def poll (answer : String → Option (WorkerMetrics K)) (r : MetricsCollector K × Snapshot)
    (url : String) : MetricsCollector K × Snapshot :=
  match answer url with
  | none => r
  | some data =>
    ({ r.1 with
        latency :=
          if 0 < data.avgLatencyMs then appendMax 500 r.1.latency data.avgLatencyMs
          else r.1.latency
        nodeStats := r.1.nodeStats.set url data },
      { clusterQueueDepth := r.2.clusterQueueDepth + data.queueDepth
        clusterTokens := r.2.clusterTokens + data.tokens
        clusterBatches := r.2.clusterBatches + data.batches })

/-- `_collect`. -/
def collect (c : MetricsCollector K) (answer : String → Option (WorkerMetrics K)) :
    MetricsCollector K :=
  let r := c.workerUrls.foldl (poll answer) (c, {})
  { r.1 with
    queueDepth := appendMax 200 r.1.queueDepth r.2.clusterQueueDepth
    snapshots := appendMax 100 r.1.snapshots r.2 }

end Collect

def queueDepthNow (c : MetricsCollector K) : ℕ :=
  match c.snapshots.getLast? with
  | none => 0
  | some snapshot => snapshot.clusterQueueDepth

end MetricsCollector

/-! ### The wired system -/

def workerUrls : List String := workerNodes.map fun n => "http://127.0.0.1:" ++ toString n.port

structure Cluster (K : Type) [Zero K] where
  router : RouterSystem K
  collector : MetricsCollector K

/-- Every request of one `_collect` is answered by `answer`. -/
inductive ClusterEvent (K : Type) [Zero K] where
  | router (e : RouterEvent K)
  | collect (answer : String → Option (WorkerMetrics K))

namespace Cluster

variable {K : Type} [Zero K] [LT K] [DecidableLT K] (digest : String → ℕ)

def step (s : Cluster K) : ClusterEvent K → Option (Cluster K)
  | .router e => (s.router.step digest e).map fun router => { s with router }
  | .collect answer => some { s with collector := s.collector.collect answer }

def machine (K : Type) [Zero K] [LT K] [DecidableLT K] :
    Machine (Cluster K) (ClusterEvent K) :=
  ⟨{ router := .init digest K, collector := { workerUrls } }, step digest⟩

end Cluster
end InferenceCluster
