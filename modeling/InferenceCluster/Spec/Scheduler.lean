import InferenceCluster.Lib.Machine
import InferenceCluster.Spec.PriorityQueue
import InferenceCluster.Spec.RateLimiter

/-! The scheduler of `scheduler/scheduler.py`: any number of API threads in `submit` beside
the worker thread. A step is one thread's next section; the model run and what the clock
reads are part of the label. -/

namespace InferenceCluster

/-- An exception: the names of its class and of the bases, its text, and its own truth
value, which `not` asks for. -/
structure PyException where
  mro : List String
  message : String
  truth : Bool := true
  deriving DecidableEq

structure BatchResult where
  text : String
  promptTokens : ℕ
  generatedTokens : ℕ
  deriving DecidableEq

abbrev Outcome := Except PyException BatchResult

def rateLimitExceeded : PyException :=
  ⟨["RuntimeError", "Exception"], "rate limit exceeded - try again shortly", true⟩

def noFuture : PyException :=
  ⟨["AttributeError", "Exception"], "'Request' object has no attribute '_future'", true⟩

/-- The text goes on with the future's address. -/
def invalidState (state : String) : PyException :=
  ⟨["InvalidStateError", "Error", "Exception"], state, true⟩

def cancelledError : PyException := ⟨["CancelledError", "Error", "Exception"], "", true⟩

def noResult : PyException :=
  ⟨["AttributeError", "Exception"], "'NoneType' object has no attribute 'get'", true⟩

/-- The outcome's `exception()`, as a condition. -/
def Outcome.failed : Outcome → Bool
  | .ok _ => false
  | .error e => e.truth

/-- The outcome's `result()`, which tests `if self._exception:` and so does not raise an
exception that is false as a condition. The result is `None` then. -/
def Outcome.result : Outcome → Except PyException (Option BatchResult)
  | .ok r => .ok (some r)
  | .error e => if e.truth then .error e else .ok none

/-! ### Futures -/

inductive Future where
  | pending
  | finished (o : Outcome)
  | cancelled
  deriving DecidableEq

/-- `set_result` and `set_exception`. -/
def Future.resolve : Future → Outcome → Except PyException Future
  | .pending, o => .ok (.finished o)
  | .finished _, _ => .error (invalidState "FINISHED")
  | .cancelled, _ => .error (invalidState "CANCELLED")

def Future.cancel : Future → Future
  | .pending => .cancelled
  | f => f

/-- What one request puts on the list of results that are counted, through `done`, `exception`
and `result` of its future. -/
def Future.counted : Future → Except PyException (List (Option BatchResult))
  | .pending => .ok []
  | .finished o => if Outcome.failed o then .ok [] else (Outcome.result o).map fun r => [r]
  | .cancelled => .error cancelledError

/-- The `_future` attributes of the request objects. -/
abbrev Futures := ℕ → Option Future

namespace Futures

def resolve (fs : Futures) (ref : ℕ) (o : Outcome) : Except PyException Futures :=
  match fs ref with
  | none => .error noFuture
  | some f => (f.resolve o).map fun f => Function.update fs ref (some f)

variable {K : Type}

def results (fs : Futures) : List (Request K) → Except PyException (List (Option BatchResult))
  | [] => .ok []
  | req :: batch =>
    match fs req.ref with
    | none => .error noFuture
    | some f => do return (← f.counted) ++ (← results fs batch)

/-- The sum of the `generated_tokens`; `None` has no `get`. -/
def generatedTokens : List (Option BatchResult) → Except PyException ℕ
  | [] => .ok 0
  | none :: _ => .error noResult
  | some r :: results => do return r.generatedTokens + (← generatedTokens results)

def tokens (fs : Futures) (batch : List (Request K)) : Except PyException ℕ := do
  generatedTokens (← fs.results batch)

end Futures

/-! ### The scheduler object -/

structure Scheduler (K : Type) where
  maxBatchSize : ℕ
  queue : PriorityQueue K := {}
  rateLimiter : TokenBucket K
  batchesProcessed : ℕ := 0
  requestsProcessed : ℕ := 0
  totalTokensGenerated : ℕ := 0
  totalBatchLatencyMs : K
  running : Bool := false

def Scheduler.init {K : Type} [Zero K] (maxBatchSize : ℕ) (rate burst now : K) : Scheduler K where
  maxBatchSize := maxBatchSize
  rateLimiter := .init rate burst now
  totalBatchLatencyMs := 0

/-- The locked section at the end of `_process_batch`, which adds up the tokens while it
updates the counters. Nothing here reads them meanwhile; what `stats` finds of them without the
lock is part of `Service`. -/
def Scheduler.account {K : Type} [Add K] (s : Scheduler K) (fs : Futures) (batch : List (Request K))
    (batchMs : K) : Except PyException Unit × Scheduler K :=
  let s := { s with
    batchesProcessed := s.batchesProcessed + 1
    requestsProcessed := s.requestsProcessed + batch.length }
  match fs.tokens batch with
  | .ok n => (.ok (), { s with
      totalTokensGenerated := s.totalTokensGenerated + n
      totalBatchLatencyMs := s.totalBatchLatencyMs + batchMs })
  | .error e => (.error e, s)

/-- Where the worker thread stands. -/
inductive WorkerPoint (K : Type) where
  | notStarted
  | loopTop
  | waitFirst
  | collecting (batch : List (Request K))
  | waitMore (batch : List (Request K))
  | runBatch (batch : List (Request K))
  | delivering (batch : List (Request K)) (todo : List (Request K × BatchResult))
  | failing (batch : List (Request K)) (e : PyException) (todo : List (Request K))
  | accounting (batch : List (Request K))
  | exited
  | crashed (e : PyException)

/-- The requests that the worker has popped and not resolved yet. -/
def WorkerPoint.current {K : Type} : WorkerPoint K → List (Request K)
  | .collecting batch | .waitMore batch | .runBatch batch => batch
  | .delivering _ todo => todo.map Prod.fst
  | .failing _ _ todo => todo
  | .notStarted | .loopTop | .waitFirst | .accounting _ | .exited | .crashed _ => []

/-- What has happened so far; the code keeps none of it. A batch is served once the model
run is over, and completed once it is counted. -/
structure History (K : Type) where
  accepted : List ℕ := []
  rejected : List (ℕ × Future) := []
  resolutions : List (ℕ × Outcome) := []
  served : List (List (Request K) × Except PyException (List BatchResult)) := []
  completed : List (List (Request K)) := []

structure SchedulerSystem (K : Type) where
  scheduler : Scheduler K
  futures : Futures := fun _ => none
  submitting : List (Request K) := []
  worker : WorkerPoint K := .notStarted
  history : History K := {}

inductive WorkerAction (K : Type) where
  | start
  | checkRunning
  | popFirst (expired : Bool)
  | checkFull (expired : Bool)
  | popMore (expired : Bool)
  | runBatch (r : Except PyException (List BatchResult))
  | resolve
  | account (batchMs : K)

inductive SchedulerEvent (K : Type) where
  | submit (now : K) (req : Request K)
  | push (req : Request K)
  | cancel (ref : ℕ)
  | stop
  | worker (a : WorkerAction K)

namespace SchedulerSystem

variable {K : Type} [Field K] [LinearOrder K]

/-- `submit` up to its `push`, or to its end where the rate limiter rejects. -/
def submit (s : SchedulerSystem K) (now : K) (req : Request K) : SchedulerSystem K :=
  let r := s.scheduler.rateLimiter.acquire now
  let s := { s with scheduler.rateLimiter := r.2 }
  if r.1 then
    { s with
      futures := Function.update s.futures req.ref (some .pending)
      submitting := req :: s.submitting
      history.accepted := s.history.accepted ++ [req.ref] }
  else
    { s with history.rejected :=
        s.history.rejected ++ [(req.ref, .finished (.error rateLimitExceeded))] }

def push (s : SchedulerSystem K) (req : Request K) : Option (SchedulerSystem K) :=
  if req ∈ s.submitting then
    some { s with
      submitting := s.submitting.erase req
      scheduler.queue := s.scheduler.queue.push req }
  else none

/-- A future cancelled by its holder. -/
def cancel (s : SchedulerSystem K) (ref : ℕ) : SchedulerSystem K :=
  { s with futures := Function.update s.futures ref ((s.futures ref).map Future.cancel) }

/-- The rest of `pop` once the queue has answered; `cont` is where its caller goes on. -/
def popStep (s : SchedulerSystem K) (expired : Bool) (cont : Option (Request K) → WorkerPoint K) :
    SchedulerSystem K :=
  match s.scheduler.queue.pop expired with
  | some (r, q) => { s with scheduler.queue := q, worker := cont r }
  | none => s

/-- One `set_result` or `set_exception`. -/
def resolveStep (s : SchedulerSystem K) (req : Request K) (o : Outcome) (done : WorkerPoint K)
    (raised : PyException → WorkerPoint K) : SchedulerSystem K :=
  match s.futures.resolve req.ref o with
  | .ok fs => { s with
      futures := fs
      worker := done
      history.resolutions := s.history.resolutions ++ [(req.ref, o)] }
  | .error e => { s with worker := raised e }

/-- One section of the worker thread: `_worker_loop` and, from `runBatch` on,
`_process_batch`. -/
def workerStep (s : SchedulerSystem K) (a : WorkerAction K) : Option (SchedulerSystem K) :=
  match s.worker, a with
  | .notStarted, .start => some { s with scheduler.running := true, worker := .loopTop }
  | .loopTop, .checkRunning =>
    some { s with worker := if s.scheduler.running then .waitFirst else .exited }
  | .waitFirst, .popFirst expired =>
    some (s.popStep expired fun
      | some first => .collecting [first]
      | none => .loopTop)
  | .collecting batch, .checkFull expired =>
    some { s with
      worker := if batch.length < s.scheduler.maxBatchSize ∧ expired = false then .waitMore batch
        else .runBatch batch }
  | .waitMore batch, .popMore expired =>
    some (s.popStep expired fun
      | some more => .collecting (batch ++ [more])
      | none => .runBatch batch)
  | .runBatch batch, .runBatch r =>
    some { s with
      worker := match r with
        | .ok results => .delivering batch (batch.zip results)
        | .error e => .failing batch e batch
      history.served := s.history.served ++ [(batch, r)] }
  | .delivering batch [], .resolve => some { s with worker := .accounting batch }
  | .delivering batch ((req, result) :: todo), .resolve =>
    some (s.resolveStep req (.ok result) (.delivering batch todo) fun e => .failing batch e batch)
  | .failing batch _ [], .resolve => some { s with worker := .accounting batch }
  | .failing batch e (req :: todo), .resolve =>
    some (s.resolveStep req (.error e) (.failing batch e todo) .crashed)
  | .accounting batch, .account batchMs =>
    let r := s.scheduler.account s.futures batch batchMs
    some { s with
      scheduler := r.2
      worker := match r.1 with
        | .ok () => .loopTop
        | .error e => .crashed e
      history.completed := s.history.completed ++ [batch] }
  | _, _ => none

def step (s : SchedulerSystem K) : SchedulerEvent K → Option (SchedulerSystem K)
  | .submit now req => some (s.submit now req)
  | .push req => s.push req
  | .cancel ref => some (s.cancel ref)
  | .stop => some { s with scheduler.running := false }
  | .worker a => s.workerStep a

def machine (maxBatchSize : ℕ) (rate burst now : K) :
    Machine (SchedulerSystem K) (SchedulerEvent K) :=
  ⟨{ scheduler := .init maxBatchSize rate burst now }, step⟩

/-! ### Terms of service -/

inductive Place where
  | submitting
  | heap
  | currentBatch
  | resolved

omit [Field K] [LinearOrder K]

/-- The requests found at a place. -/
def refsAt (s : SchedulerSystem K) : Place → List ℕ
  | .submitting => s.submitting.map Request.ref
  | .heap => s.scheduler.queue.heap.map Request.ref
  | .currentBatch => s.worker.current.map Request.ref
  | .resolved => s.history.resolutions.map Prod.fst

def submitted (s : SchedulerSystem K) : List ℕ :=
  s.history.accepted ++ s.history.rejected.map Prod.fst

/-- The request object is a new one, no future is cancelled, and a model run that returns
gives one result a request. -/
def allowed (s : SchedulerSystem K) : SchedulerEvent K → Bool
  | .submit _ req => req.ref ∉ s.submitted
  | .cancel _ => false
  | .worker (.runBatch (.ok results)) =>
    match s.worker with
    | .runBatch batch => results.length = batch.length
    | _ => true
  | _ => true

/-- The same, with futures that their holders cancel when they like. -/
def admits (s : SchedulerSystem K) : SchedulerEvent K → Bool
  | .cancel _ => true
  | e => s.allowed e

/-- What the model run of a batch means for the request at index `i`. -/
def outcomeAt : Except PyException (List BatchResult) → ℕ → Option Outcome
  | .ok results, i => results[i]?.map .ok
  | .error e, _ => some (.error e)

end SchedulerSystem
end InferenceCluster
