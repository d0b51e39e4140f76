import InferenceCluster.Spec.Api

/-! `stats` of `scheduler/scheduler.py` and `/scheduler/config` of `server/api.py`: any number of
reconfigurations, and calls of `stats` one after the other, beside the running scheduler. -/

namespace InferenceCluster

/-- The body of `POST /scheduler/config`, validated. -/
structure SchedulerConfigRequest (K : Type) [Field K] [LinearOrder K] where
  maxBatchSize : Option ℕ
  maxWaitMs : Option K
  sizeBounds : ∀ n ∈ maxBatchSize, 1 ≤ n ∧ n ≤ 64
  waitBounds : ∀ x ∈ maxWaitMs, 1 ≤ x ∧ x ≤ (5000 : ℕ)

structure QueueStats (K : Type) where
  queueDepth : ℕ
  priorityCounts : List (ℤ × ℕ)
  maxWaitMs : K
  meanWaitMs : K

structure SchedulerStats (K : Type) where
  queue : QueueStats K
  rateLimiter : BucketStats K
  batchesProcessed : ℕ
  requestsProcessed : ℕ
  totalTokensGenerated : ℕ
  avgBatchSize : K
  avgBatchLatencyMs : K

/-- Where a call of `stats` stands: the counters are read one by one and after the averages,
all but these outside the lock. -/
inductive StatsPoint (K : Type) where
  | notCalled
  | averaged (avgBatch avgLatency : K)
  | queued (avgBatch avgLatency : K) (queue : QueueStats K)
  | limited (avgBatch avgLatency : K) (queue : QueueStats K) (rateLimiter : BucketStats K)
  | batches (avgBatch avgLatency : K) (queue : QueueStats K) (rateLimiter : BucketStats K)
      (batchesProcessed : ℕ)
  | requests (avgBatch avgLatency : K) (queue : QueueStats K) (rateLimiter : BucketStats K)
      (batchesProcessed requestsProcessed : ℕ)
  | returned (r : SchedulerStats K)

/-- How far the worker is in the locked section at the end of `_process_batch`. For the scheduler
the section is one step; what reads the counters without the lock sees them one by one, the last
one at the end of that step. -/
inductive CountPoint where
  | unlocked
  | batchesAdded
  | requestsAdded
  deriving DecidableEq

structure Service (K : Type) where
  system : SchedulerSystem K
  maxWaitMs : K
  stats : StatsPoint K := .notCalled
  count : CountPoint := .unlocked

/-- `clock` is what the clock reads in the order of the readings, and `count` is the worker's next
update of a counter. -/
inductive ServiceEvent (K : Type) [Field K] [LinearOrder K] where
  | config (req : SchedulerConfigRequest K)
  | stats (clock : ℕ → K)
  | count
  | scheduler (e : SchedulerEvent K)

variable {K : Type} [Field K] [LinearOrder K]

namespace PriorityQueue

omit [LinearOrder K] in
/-- How long the requests on the heap have waited. -/
def waitTimes (q : PriorityQueue K) (clock : ℕ → K) : List K :=
  q.heap.mapIdx fun i r => clock i - r.arrivalTime

variable [FloorRing K]

def stats (q : PriorityQueue K) (clock : ℕ → K) : QueueStats K where
  queueDepth := q.heap.length
  priorityCounts :=
    let priorities := q.heap.map Request.priority
    priorities.dedup.map fun p => (p, priorities.count p)
  maxWaitMs :=
    match q.waitTimes clock with
    | [] => 0
    | w :: ws => roundTo (ws.foldl max w * (1000 : ℕ)) 1
  meanWaitMs :=
    match q.waitTimes clock with
    | [] => 0
    | w :: ws => roundTo ((w :: ws).sum / (w :: ws).length * (1000 : ℕ)) 1

end PriorityQueue

namespace Scheduler

omit [LinearOrder K] in
def avgBatch (s : Scheduler K) : K :=
  if s.batchesProcessed > 0 then s.requestsProcessed / s.batchesProcessed else 0

omit [LinearOrder K] in
def avgLatency (s : Scheduler K) : K :=
  if s.batchesProcessed > 0 then s.totalBatchLatencyMs / s.batchesProcessed else 0

end Scheduler

namespace Service

/-- `scheduler_config`; only the fields that are given change. -/
def config (s : Service K) (req : SchedulerConfigRequest K) : Service K :=
  { s with
    system.scheduler.maxBatchSize := req.maxBatchSize.getD s.system.scheduler.maxBatchSize
    maxWaitMs := req.maxWaitMs.getD s.maxWaitMs }

/-- The batch that the worker counts. -/
def counting (s : Service K) : List (Request K) :=
  match s.system.worker with
  | .accounting batch => batch
  | _ => []

/-- `self._batches_processed += 1` and then `self._requests_processed += len(batch)`, with the
lock. -/
def countStep (s : Service K) : Option (Service K) :=
  match s.system.worker, s.count with
  | .accounting _, .unlocked => some { s with count := .batchesAdded }
  | .accounting _, .batchesAdded => some { s with count := .requestsAdded }
  | _, _ => none

/-- `self._batches_processed`, read without the lock. -/
def batchesProcessed (s : Service K) : ℕ :=
  match s.count with
  | .unlocked => s.system.scheduler.batchesProcessed
  | .batchesAdded | .requestsAdded => s.system.scheduler.batchesProcessed + 1

/-- `self._requests_processed`, read without the lock. -/
def requestsProcessed (s : Service K) : ℕ :=
  match s.count with
  | .unlocked | .batchesAdded => s.system.scheduler.requestsProcessed
  | .requestsAdded => s.system.scheduler.requestsProcessed + s.counting.length

/-- A step of the scheduler; the worker's next one in its locked section is the end of it. -/
def schedulerStep (s : Service K) (e : SchedulerEvent K) : Option (Service K) :=
  (s.system.step e).map fun system => { s with
    system
    count := match e with
      | .worker _ => .unlocked
      | _ => s.count }

variable [FloorRing K]

/-- The next section of `stats`, if it does not have to wait for the lock. -/
def statsStep (s : Service K) (clock : ℕ → K) : Option (Service K) :=
  let sch := s.system.scheduler
  match s.stats with
  | .notCalled | .returned _ =>
    if s.count = .unlocked then
      some { s with stats := .averaged sch.avgBatch sch.avgLatency }
    else none
  | .averaged avgBatch avgLatency =>
    some { s with stats := .queued avgBatch avgLatency (sch.queue.stats clock) }
  | .queued avgBatch avgLatency queue =>
    let r := sch.rateLimiter.stats roundTo (clock 0)
    some { s with
      system.scheduler.rateLimiter := r.2
      stats := .limited avgBatch avgLatency queue r.1 }
  | .limited avgBatch avgLatency queue rateLimiter =>
    some { s with stats := .batches avgBatch avgLatency queue rateLimiter s.batchesProcessed }
  | .batches avgBatch avgLatency queue rateLimiter batches =>
    some { s with
      stats := .requests avgBatch avgLatency queue rateLimiter batches s.requestsProcessed }
  | .requests avgBatch avgLatency queue rateLimiter batches requests =>
    some { s with stats := .returned {
        queue
        rateLimiter
        batchesProcessed := batches
        requestsProcessed := requests
        totalTokensGenerated := sch.totalTokensGenerated
        avgBatchSize := roundTo avgBatch 2
        avgBatchLatencyMs := roundTo avgLatency 1 } }

def step (s : Service K) : ServiceEvent K → Option (Service K)
  | .config req => some (s.config req)
  | .stats clock => s.statsStep clock
  | .count => s.countStep
  | .scheduler e => s.schedulerStep e

def machine (maxBatchSize : ℕ) (maxWaitMs rate burst now : K) :
    Machine (Service K) (ServiceEvent K) :=
  ⟨{ system := (SchedulerSystem.machine maxBatchSize rate burst now).init, maxWaitMs }, step⟩

/-- The scheduler's terms of service. -/
def allowed (s : Service K) : ServiceEvent K → Bool
  | .scheduler e => s.system.allowed e
  | _ => true

end Service
end InferenceCluster
