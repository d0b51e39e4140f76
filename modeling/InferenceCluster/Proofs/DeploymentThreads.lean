import InferenceCluster.Proofs.EndToEnd
import InferenceCluster.Proofs.RouterRefinement
import InferenceCluster.Spec.DeploymentThreads

/-! The deployment with the router's threads refines the deployment whose router takes whole
steps, so what is proved about calls, workers and answers there holds with the threads. -/

namespace InferenceCluster

namespace Deployment

variable {K : Type} [Field K] [LinearOrder K] [FloorRing K] {digest : String → ℕ}
  {errorText : ℕ → String → String}

omit [Field K] [LinearOrder K] [FloorRing K] in
theorem fail_withRouter (s : Deployment K) (router : RouterSystem K) (callId : ℕ)
    (e : Node → HTTPException) :
    ({ s with router }).fail callId e = (s.fail callId e).map fun d => { d with router } := by
  simp only [fail]
  cases s.calls.find? fun c => c.callId = callId with
  | none => rfl
  | some call =>
    obtain ⟨callId, sessionId, body, point⟩ := call
    cases point <;> rfl

/-- A call looks nodes up, asks the monitor which of them are healthy, and leaves the router
alone. -/
theorem step_withRouter {s : Deployment K} {router : RouterSystem K} {e : DeploymentEvent K}
    (hring : router.ring = s.router.ring)
    (hmonitor : ∀ nodeId, router.monitor.isHealthy nodeId = s.router.monitor.isHealthy nodeId)
    (he : ∀ r, e ≠ .router r) :
    ({ s with router }).step digest errorText e =
      (s.step digest errorText e).map fun d => { d with router } := by
  cases e with
  | router e => exact absurd rfl (he e)
  | worker address e =>
    simp only [step]
    cases (s.workers address).step e <;> rfl
  | generate callId sessionId body =>
    simp only [step, Deployment.generate, hring]
    cases s.router.ring.getNodesForKey digest sessionId workerNodes.length <;> rfl
  | check callId =>
    simp only [step, check]
    cases s.calls.find? fun c => c.callId = callId with
    | none => rfl
    | some call =>
      obtain ⟨callId, sessionId, body, point⟩ := call
      cases point with
      | choosing candidates =>
        cases candidates with
        | nil => rfl
        | cons node candidates =>
          simp only [Option.bind_eq_bind, Option.bind_some, hmonitor]
          rfl
      | chosen node | waiting node t0 => rfl
  | post callId t0 =>
    simp only [step, post]
    cases s.calls.find? fun c => c.callId = callId with
    | none => rfl
    | some call =>
      obtain ⟨callId, sessionId, body, point⟩ := call
      cases point <;> rfl
  | deliver callId ref requestId arrivalTime t0 now =>
    simp only [step, deliver]
    cases s.posts.find? fun p => p.callId = callId with
    | none => rfl
    | some post =>
      cases hst : post.state <;> cases hb : post.body.validate <;>
        simp only [Option.bind_eq_bind, Option.bind_some, hst, hb] <;> rfl
  | receive callId now =>
    simp only [step, receive]
    cases s.calls.find? fun c => c.callId = callId with
    | none => rfl
    | some call =>
      obtain ⟨callId', sessionId, body, point⟩ := call
      cases s.posts.find? fun p => p.callId = callId with
      | none => rfl
      | some post =>
        obtain ⟨callId, address, body', state⟩ := post
        cases point with
        | choosing candidates | chosen node => rfl
        | waiting node t0 =>
          cases state with
          | inFlight | unprocessable => rfl
          | accepted ref =>
            simp only [Option.bind_eq_bind, Option.bind_some]
            cases (s.workers node.address).answers.find? fun a => a.ref = ref <;> rfl
  | unreachable callId => exact fail_withRouter s router callId _
  | timedOut callId => exact fail_withRouter s router callId _

omit [FloorRing K] in
/-- Nor do the terms of service speak about the router. -/
theorem allowed_withRouter (s : Deployment K) (router : RouterSystem K) (e : DeploymentEvent K) :
    ({ s with router }).allowed e = s.allowed e := by
  cases e <;> rfl

end Deployment

namespace DeploymentThreads

variable {K : Type}

/-- The step of the deployment with whole steps that a section completes. -/
def completes (s : DeploymentThreads K) : DeploymentThreadsEvent K → Option (DeploymentEvent K)
  | .threads e => (s.threads.completes e).map .router
  | .service e => some e

/-- The same service, and a router that the threads refine. -/
structure Refines (s : DeploymentThreads K) (d : Deployment K) : Prop where
  router : s.threads.Refines d.router
  workers : d.workers = s.workers
  calls : d.calls = s.calls
  posts : d.posts = s.posts
  answers : d.answers = s.answers

theorem Refines.eq_seen {s : DeploymentThreads K} {d : Deployment K} (h : Refines s d) :
    d = { s.seen with router := d.router } := by
  obtain ⟨router, workers, calls, posts, answers⟩ := d
  obtain ⟨-, rfl, rfl, rfl, rfl⟩ := h
  rfl

variable [Field K] [LinearOrder K] [FloorRing K] {digest : String → ℕ}
  {errorText : ℕ → String → String} {cfg : AutoscalerConfig K} {s s' : DeploymentThreads K}

/-- The callbacks run in their order, and the service is in its terms. -/
def allowed (s : DeploymentThreads K) : DeploymentThreadsEvent K → Bool
  | .threads e => s.threads.inOrder e
  | .service e => s.seen.allowed e

theorem stepped_service {e : DeploymentEvent K}
    (h : s.step digest errorText cfg (.service e) = some s') :
    (∀ r, e ≠ .router r) ∧
    ∃ d, s.seen.step digest errorText e = some d ∧ s' = s.withService d := by
  have he : ∀ r, e ≠ .router r := by
    rintro r rfl
    cases h
  have hstep : (s.seen.step digest errorText e).map s.withService = some s' := by
    cases e with
    | router e => exact absurd rfl (he e)
    | worker | generate | check | post | deliver | receive | unreachable | timedOut => exact h
  obtain ⟨d, hd, hs⟩ := Option.map_eq_some_iff.mp hstep
  exact ⟨he, d, hd, hs.symm⟩

variable {maxBatchSize : ℕ} {rate burst : K} {now : String → K}

theorem sound_of_reachable {cooldown clock : K}
    (h : (machine digest errorText cfg cooldown clock maxBatchSize rate burst now).Reachable s) :
    s.threads.Sound := by
  refine h.invariant (I := fun s => s.threads.Sound)
    (RouterThreads.sound_init digest cooldown clock) fun s e s' hI hs => ?_
  cases e with
  | threads e =>
    obtain ⟨threads, hthreads, rfl⟩ := Option.map_eq_some_iff.mp hs
    exact hI.step hthreads
  | service e =>
    obtain ⟨-, d, -, rfl⟩ := stepped_service hs
    exact hI

theorem matched_threads {e : RouterThreadsEvent K} {threads : RouterThreads K} {d : Deployment K}
    (h : Refines s d) (hsound : s.threads.Sound) (hok : RouterThreads.inOrder s.threads e)
    (hs : s.threads.step digest cfg e = some threads) :
    (Deployment.machine digest errorText maxBatchSize rate burst now).Matches Refines
      { s with threads } d (completes s (.threads e)) := by
  have hmatched := RouterThreads.matched_step h.router hsound hok hs
  simp only [completes]
  cases hc : s.threads.completes e with
  | none =>
    rw [RouterThreads.Matched, hc] at hmatched
    exact ⟨hmatched, h.workers, h.calls, h.posts, h.answers⟩
  | some k =>
    rw [RouterThreads.Matched, hc] at hmatched
    obtain ⟨router, hrouter, h'⟩ := hmatched
    have hd : d.step digest errorText (.router k) = some { d with router } := by
      rw [Deployment.step, show d.router.step digest k = some router from hrouter]
      rfl
    exact ⟨_, hd, h', h.workers, h.calls, h.posts, h.answers⟩

theorem matched_step {e : DeploymentThreadsEvent K} {d : Deployment K} (h : Refines s d)
    (hsound : s.threads.Sound) (hok : allowed s e) (hs : s.step digest errorText cfg e = some s') :
    (Deployment.machine digest errorText maxBatchSize rate burst now).Matches Refines s' d
      (completes s e) := by
  cases e with
  | threads e =>
    obtain ⟨threads, hthreads, rfl⟩ := Option.map_eq_some_iff.mp hs
    exact matched_threads h hsound hok hthreads
  | service e =>
    obtain ⟨he, d', hd', rfl⟩ := stepped_service hs
    have hstep : d.step digest errorText e =
        (s.seen.step digest errorText e).map fun d' => { d' with router := d.router } := by
      conv_lhs => rw [h.eq_seen]
      exact Deployment.step_withRouter h.router.ring (h.router.isHealthy hsound) he
    rw [hd'] at hstep
    exact ⟨_, hstep, h.router, rfl, rfl, rfl, rfl⟩

omit [FloorRing K] in
theorem allowed_of_completes {e : DeploymentThreadsEvent K} {k : DeploymentEvent K}
    {d : Deployment K} (h : Refines s d) (hok : allowed s e) (hc : completes s e = some k) :
    d.allowed k := by
  cases e with
  | threads e =>
    obtain ⟨k, -, rfl⟩ := Option.map_eq_some_iff.mp hc
    rfl
  | service e =>
    obtain rfl := Option.some.inj hc
    rw [h.eq_seen, Deployment.allowed_withRouter]
    exact hok

/-- Every run of the deployment with threads is one of the deployment with whole steps, which
ends with the same workers, calls, requests and answers, and finds the same nodes healthy. -/
theorem refines_deployment {cooldown clock : K} {is : List (DeploymentThreadsEvent K)}
    (hr : (machine digest errorText cfg cooldown clock maxBatchSize rate burst now).Run is s)
    (hok : (machine digest errorText cfg cooldown clock maxBatchSize rate burst now).Meets
      (fun s e => allowed s e) is) :
    ∃ d, (Deployment.machine digest errorText maxBatchSize rate burst now).Run
        ((machine digest errorText cfg cooldown clock maxBatchSize rate burst now).shown completes
          is) d ∧
      (Deployment.machine digest errorText maxBatchSize rate burst now).Meets
        (fun d e => d.allowed e)
        ((machine digest errorText cfg cooldown clock maxBatchSize rate burst now).shown completes
          is) ∧
      Refines s d ∧
      ∀ nodeId, d.router.monitor.isHealthy nodeId =
        s.threads.scaling.monitor.isHealthy nodeId := by
  have hsound : ∀ s, (machine digest errorText cfg cooldown clock maxBatchSize rate burst
      now).Reachable s → s.threads.Sound := fun _ hs => sound_of_reachable hs
  have hmatched : ∀ (s : DeploymentThreads K) (d : Deployment K) (e : DeploymentThreadsEvent K)
      (s' : DeploymentThreads K), Refines s d → s.threads.Sound ∧ allowed s e →
      s.step digest errorText cfg e = some s' →
      (Deployment.machine digest errorText maxBatchSize rate burst now).Matches Refines s' d
        (completes s e) := fun _ _ _ _ h ho hs => matched_step h ho.1 ho.2 hs
  suffices h : ∃ d, (Deployment.machine digest errorText maxBatchSize rate burst now).Run _ d ∧
      (Deployment.machine digest errorText maxBatchSize rate burst now).Meets
        (fun d e => d.allowed e) _ ∧ Refines s d by
    obtain ⟨d, hd, hmeets, href⟩ := h
    exact ⟨d, hd, hmeets, href, href.router.isHealthy (hsound s ⟨is, hr⟩)⟩
  refine hr.simulates_of_meets completes
    ⟨RouterThreads.refines_init cooldown clock, rfl, rfl, rfl, rfl⟩
    (fun s d e s' h ho hs hc => ?_) (fun s d e s' k h ho hs hc => ?_) (hok.and_reachable hsound)
  · have hm := hmatched s d e s' h ho hs
    rwa [hc] at hm
  · have hm := hmatched s d e s' h ho hs
    rw [hc] at hm
    obtain ⟨d', hd, h'⟩ := hm
    exact ⟨d', hd, allowed_of_completes h ho.2 hc, h'⟩

/-! ### A call -/

def threadedCluster : Machine (DeploymentThreads ℚ) (DeploymentThreadsEvent ℚ) :=
  machine (fun _ => 0) (fun _ _ => "") { scaleUpThreshold := 1, scaleDownThreshold := -1 } 0 0 8 50
    20 fun _ => 0

/-- A round of checks that all the workers pass. -/
def passed : List (DeploymentThreadsEvent ℚ) :=
  [.threads (.polling .advance), .threads (.polling .advance), .threads (.polling .advance),
    .threads (.polling (.answer true)), .threads (.polling .advance),
    .threads (.polling (.answer true)), .threads (.polling .advance)]

/-- While the candidates of the call are looked at, they become healthy. -/
def heldUp : List (DeploymentThreadsEvent ℚ) :=
  [.threads (.polling .start)] ++ passed ++ [.service (.check 7)] ++ passed ++
    [.threads (.callback 0), .service (.check 7), .service (.post 7 0), .threads (.callback 0),
      .service (.timedOut 7)]

/-- The call has looked its candidates up. -/
def lookedUp : DeploymentThreads ℚ :=
  { threadedCluster.init with
    calls := [⟨7, "a", { prompt := some "hello" }, .choosing workerNodes⟩] }

def lookup : DeploymentThreadsEvent ℚ := .service (.generate 7 "a" { prompt := some "hello" })

theorem step_lookup : threadedCluster.step threadedCluster.init lookup = some lookedUp := by
  have hcandidates := Deployment.lookup_constant "a"
  change (some ((threadedCluster.init.seen).generate (fun _ => 0) 7 "a"
    { prompt := some "hello" })).map threadedCluster.init.withService = _
  rw [Deployment.generate, show threadedCluster.init.seen.router.ring =
    (RouterSystem.init (fun _ => 0) ℚ).ring from rfl, hcandidates]
  rfl

theorem refines_deployment_heldUp : ∃ s d, threadedCluster.Run (lookup :: heldUp) s ∧
    s.answers.map RouterAnswered.callId = [7] ∧
    Deployment.cluster.Run (threadedCluster.shown completes (lookup :: heldUp)) d ∧
    d.answers = s.answers := by
  have hexec : (threadedCluster.exec lookedUp heldUp).map
      (fun s => s.answers.map RouterAnswered.callId) = some [7] := by
    decide +kernel
  obtain ⟨s, hs, hids⟩ := Option.map_eq_some_iff.mp hexec
  have hr : threadedCluster.Run (lookup :: heldUp) s := by
    rw [Machine.run_iff_exec, Machine.exec, step_lookup, Option.bind_some, hs]
  have hok : threadedCluster.Meets (fun s e => allowed s e) (lookup :: heldUp) := by
    refine Machine.meets_of_checks _ ?_
    rw [Machine.checks, step_lookup, Option.all_some]
    decide +kernel
  obtain ⟨d, hd, -, href, -⟩ := refines_deployment hr hok
  exact ⟨s, d, hr, hids, hd, href.answers⟩

end DeploymentThreads
end InferenceCluster
