import InferenceCluster.Proofs.EndToEnd

/-! At most once. A call of the router costs the models of all workers together one row at the
most, also where the router has given it up. -/

namespace InferenceCluster

variable {K : Type}

namespace Server

/-- How many rows of the batches that the model was run on are for this request object. -/
def rows (s : Server K) (ref : ℕ) : ℕ := s.system.servedRefs.count ref

variable [Field K] [LinearOrder K] [FloorRing K]
variable {maxBatchSize : ℕ} {rate burst now : K} {events : List (ServerEvent K)} {s : Server K}

theorem rows_le_one (hmax : 1 ≤ maxBatchSize) (h : (machine maxBatchSize rate burst now).Run events s)
    (hok : (machine maxBatchSize rate burst now).Meets (fun s e => s.allowed e) events) (ref : ℕ) :
    s.rows ref ≤ 1 :=
  List.nodup_iff_count_le_one.mp (books_of_run hmax h hok).served_nodup ref

theorem rows_of_answer (hmax : 1 ≤ maxBatchSize)
    (h : (machine maxBatchSize rate burst now).Run events s)
    (hok : (machine maxBatchSize rate burst now).Meets (fun s e => s.allowed e) events)
    {a : Answered K} (ha : a ∈ s.answers) {response : GenerateResponse K}
    (hr : a.answer = .ok response) : 1 ≤ s.rows a.ref := by
  obtain ⟨result, hown, -⟩ := served_of_answer hmax h hok ha hr
  obtain ⟨batch, results, i, req, hb, hi, href, -⟩ := hown.result
  refine List.count_pos_iff.mpr (List.mem_flatMap.mpr ⟨_, hb, ?_⟩)
  exact href ▸ List.mem_map_of_mem (List.mem_of_getElem? hi)

end Server

namespace Deployment

/-- The rows that a request has cost its worker so far. -/
def cost (s : Deployment K) (p : Post K) : ℕ :=
  match p.state with
  | .accepted ref => (s.workers p.address).rows ref
  | .inFlight | .unprocessable => 0

/-- The rows that a call has cost all workers. -/
def executions (s : Deployment K) (callId : ℕ) : ℕ :=
  ((s.posts.filter (·.callId = callId)).map s.cost).sum

variable {s : Deployment K}

theorem executions_eq_zero {callId : ℕ} (h : callId ∉ s.posts.map Post.callId) :
    s.executions callId = 0 := by
  have hnone : s.posts.filter (·.callId = callId) = [] :=
    List.filter_eq_nil_iff.mpr fun p hp => by
      simpa using fun heq => h (List.mem_map.mpr ⟨p, hp, heq⟩)
  rw [executions, hnone]
  rfl

/-- A call sends one request. -/
theorem executions_le (h : s.Ids) (hcost : ∀ p ∈ s.posts, s.cost p ≤ 1) (callId : ℕ) :
    s.executions callId ≤ 1 := by
  have hone : (s.posts.filter (·.callId = callId)).length ≤ 1 := by
    have hcount := List.nodup_iff_count_le_one.mp h.posts callId
    rwa [List.count_eq_countP, List.countP_map, List.countP_eq_length_filter] at hcount
  have hsum := List.sum_le_card_nsmul ((s.posts.filter (·.callId = callId)).map s.cost) 1 <| by
    intro n hn
    obtain ⟨p, hp, rfl⟩ := List.mem_map.mp hn
    exact hcost p (List.mem_of_mem_filter hp)
  rw [List.length_map, smul_eq_mul, mul_one] at hsum
  exact hsum.trans hone

theorem cost_le_executions {p : Post K} (hp : p ∈ s.posts) : s.cost p ≤ s.executions p.callId :=
  List.single_le_sum (fun _ _ => Nat.zero_le _) _
    (List.mem_map_of_mem (List.mem_filter.mpr ⟨hp, decide_eq_true rfl⟩))

variable [Field K] [LinearOrder K] [FloorRing K]
variable {digest : String → ℕ} {errorText : ℕ → String → String} {maxBatchSize : ℕ} {rate burst : K}
variable {now : String → K} {events : List (DeploymentEvent K)}

theorem cost_le_one (hmax : 1 ≤ maxBatchSize)
    (h : (machine digest errorText maxBatchSize rate burst now).Run events s)
    (hok : (machine digest errorText maxBatchSize rate burst now).Meets
      (fun s e => s.allowed e) events) (p : Post K) : s.cost p ≤ 1 := by
  obtain ⟨hrun, hmeets⟩ := worker_run h (workers_allowed hok) p.address
  unfold cost
  cases p.state with
  | accepted ref => exact Server.rows_le_one hmax hrun hmeets ref
  | inFlight | unprocessable => exact Nat.zero_le _

/-- Whatever interleaves and whichever messages are late or lost: no call is run twice, also if
its worker gets to it after the router has answered; a call that is answered with a text has
been run; and one that has no node to go to yet has not. -/
theorem at_most_once (hmax : 1 ≤ maxBatchSize)
    (h : (machine digest errorText maxBatchSize rate burst now).Run events s)
    (hok : (machine digest errorText maxBatchSize rate burst now).Meets
      (fun s e => s.allowed e) events) :
    (∀ callId, s.executions callId ≤ 1) ∧
    (∀ a ∈ s.answers, ∀ r, a.answer = .ok r → s.executions a.callId = 1) ∧
    ∀ c ∈ s.calls, (∀ node t0, c.point ≠ .waiting node t0) → s.executions c.callId = 0 := by
  obtain ⟨hids, htraced⟩ := traced_of_run h hok
  have hle := executions_le hids fun p _ => cost_le_one hmax h hok p
  refine ⟨hle, fun a ha r hr => le_antisymm (hle _) ?_, fun c hc hpoint => ?_⟩
  · have hexp := htraced.answers a ha
    cases hexp with
    | @answered callId sessionId body node elapsed a hcall hchosen hpost hanswer =>
      obtain ⟨hresponse, -⟩ := forwarded_eq_ok hr
      obtain ⟨hrun, hmeets⟩ := worker_run h (workers_allowed hok) node.address
      have hrows := Server.rows_of_answer hmax hrun hmeets hanswer hresponse
      exact hrows.trans (cost_le_executions hpost)
    | _ => cases hr
  · refine executions_eq_zero fun hsent => ?_
    obtain ⟨node, t0, hwaiting⟩ := hids.unsent c hc hsent
    exact hpoint node t0 hwaiting

/-- The router has given up when the worker gets to the request. -/
def givenUp : List (DeploymentEvent ℚ) :=
  let valid : GenerateRequest ℚ := { prompt := "hello", temperature := 4 / 5, topP := 19 / 20 }
  let served : List (SchedulerEvent ℚ) := [.worker .start, .push (valid.request 1 "q" 0),
    .worker .checkRunning, .worker (.popFirst false), .worker (.checkFull true),
    .worker (.runBatch (.ok [⟨"five", 2, 1⟩]))]
  [.router (.check "worker-b" true), .router (.check "worker-b" true), .check 8, .check 8,
    .post 8 0, .deliver 8 1 "q" 0 0 0, .timedOut 8] ++
    served.map (fun e => .worker "http://127.0.0.1:8002" (.scheduler e))

theorem at_most_once_givenUp : ∃ s, cluster.Run (lookups ++ givenUp) s ∧
    s.answers.map RouterAnswered.callId = [8] ∧ s.executions 8 = 1 ∧
    (∀ callId, s.executions callId ≤ 1) ∧ ∀ c ∈ s.calls, (∀ node t0, c.point ≠ .waiting node t0) →
      s.executions c.callId = 0 := by
  have hexec : (cluster.exec twoCalls givenUp).map
      (fun s => (s.answers.map RouterAnswered.callId, s.executions 8)) = some ([8], 1) := by
    decide +kernel
  have hallowed : cluster.Meets (fun s e => s.allowed e) (lookups ++ givenUp) :=
    meets_lookups (by decide +kernel) (by decide +kernel) (by decide +kernel)
  obtain ⟨s, hs, hparts⟩ := Option.map_eq_some_iff.mp hexec
  obtain ⟨hanswers, hexecutions⟩ := Prod.mk.inj hparts
  have hr := (Machine.run_iff_exec _).mpr ((exec_lookups givenUp).trans hs)
  obtain ⟨hle, -, hzero⟩ := at_most_once (by decide) hr hallowed
  exact ⟨s, hr, hanswers, hexecutions, hle, hzero⟩

end Deployment
end InferenceCluster
