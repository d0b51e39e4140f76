import InferenceCluster.Spec.Router
import InferenceCluster.Spec.Scheduler
import Mathlib.Algebra.Order.Floor.Defs

/-! The scheduler's endpoints of `server/api.py`: any number of `/generate` calls and one call of
`/scheduler/drain` beside the scheduler. A step is one thread's next section, as in the
scheduler; new objects and what the clock reads are part of the label. -/

namespace InferenceCluster

/-- The body of `POST /generate`, validated. -/
structure GenerateRequest (K : Type) where
  prompt : String
  maxNewTokens : ℕ := 100
  temperature : K
  topP : K
  priority : ℤ := 0

structure GenerateResponse (K : Type) where
  requestId : String
  text : String
  promptTokens : ℕ
  generatedTokens : ℕ
  latencyMs : K
  tokensPerSec : K
  batchSize : Option ℕ := none
  deriving DecidableEq

/-- What a client gets; an exception that the endpoint does not turn into an `HTTPException`
is answered 500 by the framework. -/
inductive Answer (K : Type) where
  | ok (response : GenerateResponse K)
  | http (e : HTTPException)
  | unhandled (e : PyException)
  deriving DecidableEq

def Answer.status {K : Type} : Answer K → ℕ
  | .ok _ => 200
  | .http e => e.status
  | .unhandled _ => 500

/-- `isinstance(e, cls)`. -/
def PyException.isInstance (e : PyException) (cls : String) : Bool := e.mro.contains cls

/-- What `result(timeout=120)` raises when the time is up. -/
def timeoutError : PyException := ⟨["TimeoutError", "Error", "Exception"], "", true⟩

def zeroDivisionError : PyException :=
  ⟨["ZeroDivisionError", "ArithmeticError", "Exception"], "division by zero", true⟩

def notSubscriptable : PyException :=
  ⟨["TypeError", "Exception"], "'NoneType' object is not subscriptable", true⟩

def schedulerNotRunning : HTTPException := ⟨503, "scheduler not running"⟩

section Endpoint

variable {K : Type} [Field K] [LinearOrder K] [FloorRing K]

/-- `round(x, ndigits)`: to the nearest, ties to the even digit. -/
def roundTo (x : K) (ndigits : ℕ) : K :=
  let scale : ℕ := 10 ^ ndigits
  let n := ⌊x * scale⌋
  let rest := x * scale - n
  if rest < 1 - rest ∨ (rest = 1 - rest ∧ n % 2 = 0) then n / scale else (n + 1) / scale

/-- The end of `generate`: what it answers once `result` has returned or raised. -/
def generateAnswer (requestId : String) (elapsed : K) :
    Except PyException (Option BatchResult) → Answer K
  | .ok none => .unhandled notSubscriptable
  | .ok (some result) =>
    let latencyMs := elapsed * 1000
    if latencyMs / 1000 = 0 then .unhandled zeroDivisionError
    else .ok
      { requestId
        text := result.text
        promptTokens := result.promptTokens
        generatedTokens := result.generatedTokens
        latencyMs := roundTo latencyMs 1
        tokensPerSec := roundTo (result.generatedTokens / (latencyMs / 1000)) 1 }
  | .error e =>
    if e.isInstance "RuntimeError" then .http ⟨429, e.message⟩
    else if e.isInstance "Exception" then .http ⟨500, "generation failed: " ++ e.message⟩
    else .unhandled e

end Endpoint

def GenerateRequest.request {K : Type} (body : GenerateRequest K) (ref : ℕ) (requestId : String)
    (arrivalTime : K) : Request K :=
  { ref
    prompt := body.prompt
    maxNewTokens := body.maxNewTokens
    temperature := body.temperature
    topP := body.topP
    priority := body.priority
    arrivalTime
    requestId }

/-! ### The server -/

/-- A `/generate` call that waits for its result. `future` is the finished future of a rejected
request; that of an accepted one is found at the request. -/
structure Call (K : Type) where
  ref : ℕ
  requestId : String
  t0 : K
  future : Option Future

/-- How a call came to its answer. -/
inductive Reply where
  | notRunning
  | timedOut
  | done (o : Outcome)

structure Answered (K : Type) where
  ref : ℕ
  reply : Reply
  answer : Answer K

structure DrainResponse where
  drained : Bool
  remaining : ℕ
  deriving DecidableEq

/-- Where the call of `scheduler_drain` stands; `empty` and `expired` are its two returns. -/
inductive DrainPoint where
  | notCalled
  | polling
  | empty
  | expired
  | returned (r : Except HTTPException DrainResponse)

/-- `state` holds the scheduler while `running`. The answers given and the requests that were
pushed before the drain call are kept for the statements only. -/
structure Server (K : Type) where
  running : Bool := true
  system : SchedulerSystem K
  calls : List (Call K) := []
  answers : List (Answered K) := []
  drain : DrainPoint := .notCalled
  pushedBefore : List ℕ := []

inductive ServerEvent (K : Type) where
  | generate (body : GenerateRequest K) (ref : ℕ) (requestId : String) (arrivalTime t0 now : K)
  | result (ref : ℕ) (now : K)
  | timeout (ref : ℕ)
  | drain
  | poll (expired : Bool)
  | drainReturn
  | clearState
  | scheduler (e : SchedulerEvent K)

namespace Server

variable {K : Type} [Field K] [LinearOrder K]

/-- The future that `submit` returns for a rejected request. -/
def rejection (s : Server K) (now : K) : Option Future :=
  if (s.system.scheduler.rateLimiter.acquire now).1 then none
  else some (.finished (.error rateLimitExceeded))

/-- `generate` up to its call of `result`, but for the push of an accepted request. -/
def generate (s : Server K) (body : GenerateRequest K) (ref : ℕ) (requestId : String)
    (arrivalTime t0 now : K) : Server K :=
  if s.running then
    { s with
      system := s.system.submit now (body.request ref requestId arrivalTime)
      calls := ⟨ref, requestId, t0, s.rejection now⟩ :: s.calls }
  else
    { s with answers := s.answers ++ [⟨ref, .notRunning, .http schedulerNotRunning⟩] }

/-- The future that a call waits for. -/
def future (s : Server K) (call : Call K) : Option Future :=
  match call.future with
  | some f => some f
  | none => s.system.futures call.ref

/-- The call is answered. -/
def reply (s : Server K) (call : Call K) (reply : Reply) (answer : Answer K) : Server K :=
  { s with
    calls := s.calls.filter (·.ref ≠ call.ref)
    answers := s.answers ++ [⟨call.ref, reply, answer⟩] }

variable [FloorRing K]

/-- The call goes on with what `result` has returned or raised. -/
def finish (s : Server K) (call : Call K) (now : K) (r : Reply)
    (result : Except PyException (Option BatchResult)) : Server K :=
  s.reply call r (generateAnswer call.requestId (now - call.t0) result)

/-- The rest of `generate` where the future is done. -/
def result (s : Server K) (ref : ℕ) (now : K) : Option (Server K) := do
  let call ← s.calls.find? (·.ref = ref)
  match s.future call with
  | some (.finished o) => some (s.finish call now (.done o) (Outcome.result o))
  | some .cancelled =>
    some (s.finish call now (.done (.error cancelledError)) (.error cancelledError))
  | _ => none

/-- The rest of `generate` where the request is pushed, the future is not done and the 120
seconds are over. -/
def timeout (s : Server K) (ref : ℕ) : Option (Server K) := do
  let call ← s.calls.find? (·.ref = ref)
  if call.ref ∈ s.system.refsAt .submitting then none
  else
    match s.future call with
    | some .pending => some (s.finish call call.t0 .timedOut (.error timeoutError))
    | _ => none

/-- The requests that have been pushed so far. -/
def pushed (s : Server K) : List ℕ :=
  s.system.refsAt .heap ++ s.system.refsAt .currentBatch ++ s.system.refsAt .resolved

/-- `scheduler_drain` up to its loop. -/
def drainCall (s : Server K) : Option (Server K) :=
  match s.drain with
  | .notCalled =>
    some { s with
      drain := if s.running then .polling else .returned (.error schedulerNotRunning)
      pushedBefore := s.pushed }
  | _ => none

/-- One turn of the loop of `scheduler_drain`; `expired` says that the deadline is past. -/
def poll (s : Server K) (expired : Bool) : Option (Server K) :=
  match s.drain with
  | .polling =>
    some { s with
      drain :=
        if s.system.scheduler.queue.size = 0 then .empty
        else if expired then .expired else .polling }
  | _ => none

/-- The return of `scheduler_drain`, which reads the size again after the deadline. -/
def drainReturn (s : Server K) : Option (Server K) :=
  match s.drain with
  | .empty => some { s with drain := .returned (.ok ⟨true, 0⟩) }
  | .expired => some { s with drain := .returned (.ok ⟨false, s.system.scheduler.queue.size⟩) }
  | _ => none

def step (s : Server K) : ServerEvent K → Option (Server K)
  | .generate body ref requestId arrivalTime t0 now =>
    some (s.generate body ref requestId arrivalTime t0 now)
  | .result ref now => s.result ref now
  | .timeout ref => s.timeout ref
  | .drain => s.drainCall
  | .poll expired => s.poll expired
  | .drainReturn => s.drainReturn
  | .clearState => some { s with running := false }
  | .scheduler e => (s.system.step e).map fun system => { s with system }

def machine (maxBatchSize : ℕ) (rate burst now : K) : Machine (Server K) (ServerEvent K) :=
  ⟨{ system := (SchedulerSystem.machine maxBatchSize rate burst now).init }, step⟩

/-- The scheduler's terms of service: new request objects, no cancelled future, one result a
request; and what a model run raises is an `Exception`. -/
def allowed (s : Server K) : ServerEvent K → Bool
  | .generate _ ref _ _ _ _ => ref ∉ s.system.submitted ∧ ref ∉ s.answers.map Answered.ref
  | .scheduler e => s.system.allowed e && match e with
    | .submit _ req => req.ref ∉ s.answers.map Answered.ref
    | .worker (.runBatch (.error e)) => e.isInstance "Exception"
    | _ => true
  | _ => true

end Server
end InferenceCluster
