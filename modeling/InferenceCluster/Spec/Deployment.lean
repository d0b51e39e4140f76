import InferenceCluster.Spec.Api

/-! `generate` of `router/router.py` end to end: any number of calls beside the router's threads,
each forwarded to a worker, a server of `server/api.py` at an address. `forward` sends one
message and waits; the message may arrive late or not at all, and so may its answer. -/

namespace InferenceCluster

/-- The JSON object that a client sends to `/generate`. -/
structure GenerateBody (K : Type) where
  prompt : Option String
  maxNewTokens : Option ℤ := none
  temperature : Option K := none
  topP : Option K := none
  priority : Option ℤ := none

/-- The validation by `GenerateRequest`; the framework answers 422 where it fails. -/
def GenerateBody.validate {K : Type} [Field K] [LinearOrder K] (b : GenerateBody K) :
    Option (GenerateRequest K) :=
  let maxNewTokens := b.maxNewTokens.getD 100
  let temperature := b.temperature.getD ((8 : ℕ) / (10 : ℕ))
  let topP := b.topP.getD ((95 : ℕ) / (100 : ℕ))
  let priority := b.priority.getD 0
  match b.prompt with
  | none => none
  | some prompt =>
    if (1 ≤ maxNewTokens ∧ maxNewTokens ≤ 1000) ∧
        (1 / (100 : ℕ) ≤ temperature ∧ temperature ≤ (2 : ℕ)) ∧ (0 ≤ topP ∧ topP ≤ 1) ∧
        (0 ≤ priority ∧ priority ≤ 10) then
      some { prompt, maxNewTokens := maxNewTokens.toNat, temperature, topP, priority }
    else none

/-- Where a call of the router's `generate` stands. -/
inductive RoutePoint (K : Type) where
  | choosing (candidates : List Node)
  | chosen (node : Node)
  | waiting (node : Node) (t0 : K)

structure RouterCall (K : Type) where
  callId : ℕ
  sessionId : String
  body : GenerateBody K
  point : RoutePoint K

inductive PostState where
  | inFlight
  | accepted (ref : ℕ)
  | unprocessable

/-- A request that `forward` has sent; `accepted` names the request object at the worker. -/
structure Post (K : Type) where
  callId : ℕ
  address : String
  body : GenerateBody K
  state : PostState := .inFlight

structure RouterResponse (K : Type) where
  response : GenerateResponse K
  routedTo : String
  routerMs : K
  sessionId : String

inductive RouterAnswer (K : Type) where
  | ok (r : RouterResponse K)
  | http (e : HTTPException)
  | unhandled (e : PyDict.KeyError String)

structure RouterAnswered (K : Type) where
  callId : ℕ
  answer : RouterAnswer K

def unreachable (node : Node) : HTTPException := ⟨503, "worker " ++ node.nodeId ++ " unreachable"⟩

def timedOut (node : Node) : HTTPException := ⟨504, "worker " ++ node.nodeId ++ " timed out"⟩

/-- The answers given are kept for the statements only. -/
structure Deployment (K : Type) where
  router : RouterSystem K
  workers : String → Server K
  calls : List (RouterCall K) := []
  posts : List (Post K) := []
  answers : List (RouterAnswered K) := []

inductive DeploymentEvent (K : Type) where
  | router (e : RouterEvent K)
  | worker (address : String) (e : ServerEvent K)
  | generate (callId : ℕ) (sessionId : String) (body : GenerateBody K)
  | check (callId : ℕ)
  | post (callId : ℕ) (t0 : K)
  | deliver (callId ref : ℕ) (requestId : String) (arrivalTime t0 now : K)
  | receive (callId : ℕ) (now : K)
  | unreachable (callId : ℕ)
  | timedOut (callId : ℕ)

namespace Deployment

variable {K : Type}

/-- The call goes on. -/
def move (s : Deployment K) (call : RouterCall K) (point : RoutePoint K) : Deployment K :=
  { s with calls := s.calls.map fun c => if c.callId = call.callId then { c with point } else c }

/-- The call is answered. -/
def answer (s : Deployment K) (call : RouterCall K) (a : RouterAnswer K) : Deployment K :=
  { s with
    calls := s.calls.filter (·.callId ≠ call.callId)
    answers := s.answers ++ [⟨call.callId, a⟩] }

/-- What has become of a request. -/
def settle (s : Deployment K) (callId : ℕ) (state : PostState) : Deployment K :=
  { s with posts := s.posts.map fun p => if p.callId = callId then { p with state } else p }

/-- `generate` up to the candidates of `route`. -/
def generate (digest : String → ℕ) (s : Deployment K) (callId : ℕ) (sessionId : String)
    (body : GenerateBody K) : Deployment K :=
  match s.router.ring.getNodesForKey digest sessionId workerNodes.length with
  | .ok candidates => { s with calls := ⟨callId, sessionId, body, .choosing candidates⟩ :: s.calls }
  | .error e => { s with answers := s.answers ++ [⟨callId, .unhandled e⟩] }

/-- The next turn of the loop of `route`, or its end. -/
def check (s : Deployment K) (callId : ℕ) : Option (Deployment K) := do
  let call ← s.calls.find? (·.callId = callId)
  match call.point with
  | .choosing [] => some (s.answer call (.http noHealthyWorkers))
  | .choosing (node :: rest) =>
    some (s.move call
      (if s.router.monitor.isHealthy node.nodeId then .chosen node else .choosing rest))
  | _ => none

/-- `forward` sends the request; it does so once. -/
def post (s : Deployment K) (callId : ℕ) (t0 : K) : Option (Deployment K) := do
  let call ← s.calls.find? (·.callId = callId)
  match call.point with
  | .chosen node =>
    some { s.move call (.waiting node t0) with
      posts := s.posts ++ [{ callId, address := node.address, body := call.body }] }
  | _ => none

/-- The handler of a `ConnectionError` or a `Timeout` that `forward` waits into. -/
def fail (s : Deployment K) (callId : ℕ) (e : Node → HTTPException) : Option (Deployment K) := do
  let call ← s.calls.find? (·.callId = callId)
  match call.point with
  | .waiting node _ => some (s.answer call (.http (e node)))
  | _ => none

variable [Field K] [LinearOrder K]

/-- The call that a request becomes at its worker. -/
def delivery (s : Deployment K) (callId ref : ℕ) (requestId : String) (arrivalTime t0 now : K) :
    Option (String × ServerEvent K) := do
  let post ← s.posts.find? (·.callId = callId)
  let body ← post.body.validate
  some (post.address, .generate body ref requestId arrivalTime t0 now)

/-- A request arrives at its worker. -/
def deliver (s : Deployment K) (callId ref : ℕ) (requestId : String) (arrivalTime t0 now : K) :
    Option (Deployment K) := do
  let post ← s.posts.find? (·.callId = callId)
  match post.state, post.body.validate with
  | .inFlight, some body =>
    let worker := s.workers post.address
    some { s.settle callId (.accepted ref) with
      workers := Function.update s.workers post.address
        (worker.generate body ref requestId arrivalTime t0 now) }
  | .inFlight, none => some (s.settle callId .unprocessable)
  | _, _ => none

variable [FloorRing K]

/-- What the router answers where the worker has: its own status and the text of the
`HTTPError` where it is an error. -/
def forwarded (errorText : ℕ → String → String) (node : Node) (sessionId : String) (elapsed : K) :
    Answer K → RouterAnswer K
  | .ok response =>
    .ok { response, routedTo := node.nodeId, routerMs := roundTo (elapsed * (1000 : ℕ)) 1, sessionId }
  | .http e => .http ⟨e.status, errorText e.status (node.address ++ "/generate")⟩
  | .unhandled _ => .http ⟨500, errorText 500 (node.address ++ "/generate")⟩

/-- The rest of `generate` where the worker's answer arrives. -/
def receive (errorText : ℕ → String → String) (s : Deployment K) (callId : ℕ) (now : K) :
    Option (Deployment K) := do
  let call ← s.calls.find? (·.callId = callId)
  let post ← s.posts.find? (·.callId = callId)
  match call.point, post.state with
  | .waiting node t0, .accepted ref =>
    let a ← (s.workers node.address).answers.find? (·.ref = ref)
    some (s.answer call (forwarded errorText node call.sessionId (now - t0) a.answer))
  | .waiting node _, .unprocessable =>
    some (s.answer call (.http ⟨422, errorText 422 (node.address ++ "/generate")⟩))
  | _, _ => none

section Machine

variable (digest : String → ℕ) (errorText : ℕ → String → String)

/-- `digest` is the md5 digest of the hash ring, and `errorText` the text of `HTTPError` for a
status and a URL. -/
def step (s : Deployment K) : DeploymentEvent K → Option (Deployment K)
  | .router e => (s.router.step digest e).map fun router => { s with router }
  | .worker address e =>
    ((s.workers address).step e).map fun worker =>
      { s with workers := Function.update s.workers address worker }
  | .generate callId sessionId body => some (s.generate digest callId sessionId body)
  | .check callId => s.check callId
  | .post callId t0 => s.post callId t0
  | .deliver callId ref requestId arrivalTime t0 now =>
    s.deliver callId ref requestId arrivalTime t0 now
  | .receive callId now => s.receive errorText callId now
  | .unreachable callId => s.fail callId InferenceCluster.unreachable
  | .timedOut callId => s.fail callId InferenceCluster.timedOut

/-- `now` is when the worker at an address has been started. -/
def machine (maxBatchSize : ℕ) (rate burst : K) (now : String → K) :
    Machine (Deployment K) (DeploymentEvent K) where
  init :=
    { router := RouterSystem.init digest K
      workers := fun address => (Server.machine maxBatchSize rate burst (now address)).init }
  step := step digest errorText

end Machine

/-! ### Terms of service -/

omit [FloorRing K]

/-- The event as one of a worker. -/
def atWorker (s : Deployment K) : DeploymentEvent K → Option (String × ServerEvent K)
  | .worker address e => some (address, e)
  | .deliver callId ref requestId arrivalTime t0 now =>
    s.delivery callId ref requestId arrivalTime t0 now
  | _ => none

/-- The same, as one of the worker at `address`. -/
def seenAt (address : String) (s : Deployment K) (e : DeploymentEvent K) :
    Option (ServerEvent K) :=
  match s.atWorker e with
  | some (a, e) => if a = address then some e else none
  | none => none

/-- `ok` holds of the event at its worker, if it is one of a worker. -/
def workersMeet (ok : String → Server K → ServerEvent K → Bool) (s : Deployment K)
    (e : DeploymentEvent K) : Bool :=
  match s.atWorker e with
  | some (address, e) => ok address (s.workers address) e
  | none => true

/-- A call of the router has a new id. -/
def fresh (s : Deployment K) : DeploymentEvent K → Bool
  | .generate callId _ _ =>
    callId ∉ s.calls.map RouterCall.callId ∧ callId ∉ s.answers.map RouterAnswered.callId
  | _ => true

/-- The ids are new, and every worker is in its own terms of service. -/
def allowed (s : Deployment K) (e : DeploymentEvent K) : Bool :=
  s.fresh e && s.workersMeet (fun _ worker e => worker.allowed e) e

end Deployment
end InferenceCluster
