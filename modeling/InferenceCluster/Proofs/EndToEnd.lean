import InferenceCluster.Proofs.FailoverRouting
import InferenceCluster.Proofs.ResponseIntegrity
import InferenceCluster.Sanity.Deployment

/-! From the client of the router to the worker's model and back. -/

namespace InferenceCluster

variable {K : Type} [Field K] [LinearOrder K] [FloorRing K]

namespace Server

open SchedulerSystem

omit [Field K] [LinearOrder K] [FloorRing K] in
/-- The request object of a call. -/
def madeBy : ServerEvent K → Option ℕ
  | .generate _ ref _ _ _ _ => some ref
  | _ => none

omit [Field K] [LinearOrder K] [FloorRing K] in
/-- The request objects that the server has heard of. -/
def known (s : Server K) : List ℕ := s.system.submitted ++ s.answers.map Answered.ref

theorem answers_step {s s' : Server K} {e : ServerEvent K} (hs : Stepped s e s') :
    s.answers <+: s'.answers := by
  cases hs with
  | notRunning | finished | cancelled | timedOut => exact List.prefix_append _ _
  | _ => exact List.prefix_rfl

theorem known_step {s s' : Server K} {e : ServerEvent K} (hok : s.allowed e = true)
    (hs : Stepped s e s') : s.known ⊆ s'.known := by
  intro ref hr
  rcases List.mem_append.mp hr with hr | hr
  · refine List.mem_append_left _ ?_
    rcases system_step hok hs with heq | ⟨e', hok', hstep⟩
    · rwa [heq]
    · have hf := forward_step (allowed_system hok') hstep
      rcases List.mem_append.mp hr with hacc | hrej
      · exact List.mem_append_left _ (hf.accepted.subset hacc)
      · exact List.mem_append_right _ ((hf.rejected.map Prod.fst).subset hrej)
  · exact List.mem_append_right _ (((answers_step hs).map Answered.ref).subset hr)

omit [FloorRing K] in
theorem known_generate (s : Server K) (body : GenerateRequest K) (ref : ℕ) (requestId : String)
    (arrivalTime t0 now : K) :
    ref ∈ (s.generate body ref requestId arrivalTime t0 now).known := by
  unfold Server.generate
  split_ifs
  · exact List.mem_append_left _ (mem_submitted_submit ..)
  · simp [known]

variable {maxBatchSize : ℕ} {rate burst now : K}

/-- Two calls make two request objects, which the server does not forget. -/
theorem made_once {events : List (ServerEvent K)} {s : Server K}
    (h : (machine maxBatchSize rate burst now).Run events s)
    (hok : (machine maxBatchSize rate burst now).Meets (fun s e => s.allowed e) events) :
    (events.filterMap madeBy).Nodup ∧ events.filterMap madeBy ⊆ s.known := by
  refine Machine.Run.invariant_of_meets
    (I := fun is s => (is.filterMap madeBy).Nodup ∧ is.filterMap madeBy ⊆ s.known)
    ⟨List.nodup_nil, List.nil_subset _⟩ ?_ h hok
  rintro is s e s' - ⟨hnd, hsub⟩ hok hs
  have hknown := known_step hok (stepped hs)
  rw [List.filterMap_append]
  cases he : madeBy e with
  | none => simpa [he] using ⟨hnd, List.Subset.trans hsub hknown⟩
  | some ref =>
    cases e with
    | generate body ref' requestId arrivalTime t0 now =>
      obtain rfl := Option.some.inj he
      obtain rfl := Option.some.inj hs
      have hnew : ref' ∉ s.known := by
        obtain ⟨hsubmitted, hanswers⟩ := of_decide_eq_true hok
        exact fun hr => (List.mem_append.mp hr).elim hsubmitted hanswers
      simp only [List.filterMap_cons, he, List.filterMap_nil, List.append_subset]
      refine ⟨?_, List.Subset.trans hsub hknown, ?_⟩
      · exact (List.perm_append_singleton _ _).nodup_iff.mpr
          (List.nodup_cons.mpr ⟨fun hr => hnew (hsub hr), hnd⟩)
      · exact List.cons_subset.mpr ⟨known_generate .., List.nil_subset _⟩
    | _ => cases he

omit [Field K] [LinearOrder K] [FloorRing K] in
/-- A request object is that of one call. -/
theorem call_unique {events : List (ServerEvent K)} (hnd : (events.filterMap madeBy).Nodup)
    {e e' : ServerEvent K} (he : e ∈ events) (he' : e' ∈ events) {ref : ℕ}
    (hr : madeBy e = some ref) (hr' : madeBy e' = some ref) : e = e' := by
  by_contra hne
  have hp := List.pairwise_filterMap.mp hnd
  have hsymm : Std.Symm fun e e' : ServerEvent K =>
      ∀ r, madeBy e = some r → ∀ r', madeBy e' = some r' → r ≠ r' :=
    ⟨fun _ _ h r hr r' hr' => (h r' hr' r hr).symm⟩
  exact hp.forall he he' hne ref hr ref hr' rfl

end Server

namespace Deployment

variable {digest : String → ℕ} {errorText : ℕ → String → String}
variable {s s' : Deployment K} {e : DeploymentEvent K}

/-! ### How a call came to its answer -/

section Traced

variable (m : Machine (Deployment K) (DeploymentEvent K)) (digest : String → ℕ)
  (errorText : ℕ → String → String)

/-- Where the loop of `route` stands in one call after these events. The candidates are those of
the lookup at the call's own `generate`; at each `check` of its own it has found the next one
unhealthy. -/
inductive Tried (callId : ℕ) (sessionId : String) (body : GenerateBody K) :
    List (DeploymentEvent K) → List Node → List Node → Prop
  | looked {is : List (DeploymentEvent K)} {u : Deployment K} {candidates : List Node}
      (hr : m.Run is u)
      (hc : u.router.ring.getNodesForKey digest sessionId workerNodes.length = .ok candidates) :
      Tried callId sessionId body (is ++ [.generate callId sessionId body]) [] candidates
  | other {is : List (DeploymentEvent K)} {e : DeploymentEvent K} {tried rest : List Node}
      (h : Tried callId sessionId body is tried rest) (he : e ≠ .check callId) :
      Tried callId sessionId body (is ++ [e]) tried rest
  | unhealthy {is : List (DeploymentEvent K)} {u : Deployment K} {node : Node}
      {tried rest : List Node} (h : Tried callId sessionId body is tried (node :: rest))
      (hr : m.Run is u) (hsick : u.router.monitor.isHealthy node.nodeId = false) :
      Tried callId sessionId body (is ++ [.check callId]) (tried ++ [node]) rest

/-- The call's next check found this candidate healthy. -/
def Chosen (events : List (DeploymentEvent K)) (callId : ℕ) (sessionId : String)
    (body : GenerateBody K) (node : Node) : Prop :=
  ∃ is u tried rest, is ++ [.check callId] <+: events ∧ m.Run is u ∧
    Tried m digest callId sessionId body is tried (node :: rest) ∧
    u.router.monitor.isHealthy node.nodeId = true

def Stands (events : List (DeploymentEvent K)) (call : RouterCall K) : Prop :=
  match call.point with
  | .choosing rest =>
    ∃ tried, Tried m digest call.callId call.sessionId call.body events tried rest
  | .chosen node | .waiting node _ =>
    Chosen m digest events call.callId call.sessionId call.body node

/-- The answers that there are; the worker's is the one for the call's own request. -/
inductive Explained (events : List (DeploymentEvent K)) (s : Deployment K) :
    RouterAnswered K → Prop
  | noneHealthy {callId : ℕ} {sessionId : String} {body : GenerateBody K}
      {is : List (DeploymentEvent K)} {tried : List Node}
      (hcall : .generate callId sessionId body ∈ events) (hcheck : is ++ [.check callId] <+: events)
      (htried : Tried m digest callId sessionId body is tried []) :
      Explained events s ⟨callId, .http noHealthyWorkers⟩
  | unreachable {callId : ℕ} {sessionId : String} {body : GenerateBody K} {node : Node}
      (hcall : .generate callId sessionId body ∈ events)
      (hchosen : Chosen m digest events callId sessionId body node) :
      Explained events s ⟨callId, .http (InferenceCluster.unreachable node)⟩
  | timedOut {callId : ℕ} {sessionId : String} {body : GenerateBody K} {node : Node}
      (hcall : .generate callId sessionId body ∈ events)
      (hchosen : Chosen m digest events callId sessionId body node) :
      Explained events s ⟨callId, .http (InferenceCluster.timedOut node)⟩
  | unprocessable {callId : ℕ} {sessionId : String} {body : GenerateBody K} {node : Node}
      (hcall : .generate callId sessionId body ∈ events)
      (hchosen : Chosen m digest events callId sessionId body node) (hbody : body.validate = none) :
      Explained events s ⟨callId, .http ⟨422, errorText 422 (node.address ++ "/generate")⟩⟩
  | answered {callId : ℕ} {sessionId : String} {body : GenerateBody K} {node : Node} {elapsed : K}
      {a : Answered K} (hcall : .generate callId sessionId body ∈ events)
      (hchosen : Chosen m digest events callId sessionId body node)
      (hpost : ⟨callId, node.address, body, .accepted a.ref⟩ ∈ s.posts)
      (ha : a ∈ (s.workers node.address).answers) :
      Explained events s ⟨callId, forwarded errorText node sessionId elapsed a.answer⟩

structure Traced (events : List (DeploymentEvent K)) (s : Deployment K) : Prop where
  asked : ∀ c ∈ s.calls, .generate c.callId c.sessionId c.body ∈ events
  points : ∀ c ∈ s.calls, Stands m digest events c
  answers : ∀ a ∈ s.answers, Explained m digest errorText events s a
  unprocessable : ∀ p ∈ s.posts, p.state = .unprocessable → p.body.validate = none
  accepted : ∀ p ∈ s.posts, ∀ ref, p.state = .accepted ref →
    ∃ body requestId arrivalTime t0 now, p.body.validate = some body ∧
      .generate body ref requestId arrivalTime t0 now ∈ m.shown (seenAt p.address) events

end Traced

/-- What a step does not take back. -/
structure Grown (s s' : Deployment K) : Prop where
  posts : ∀ p ∈ s.posts, ∀ ref, p.state = .accepted ref → p ∈ s'.posts
  answers : ∀ address, (s.workers address).answers <+: (s'.workers address).answers

theorem grown_step (h : s.Ids) (hs : Stepped digest errorText s e s') : Grown s s' := by
  constructor
  · intro p hp ref hacc
    cases hs with
    | posted => exact List.mem_append_left _ hp
    | delivered hfind hst | unprocessable hfind hst =>
      exact h.settled (find_post hfind).1 hst hp hacc _
    | _ => exact hp
  · intro address
    have hstep := worker_step hs address
    split at hstep
    · rename_i a k _
      by_cases heq : a = address
      · obtain rfl := heq
        exact Server.answers_step (Server.stepped hstep.1)
      · rw [hstep.2 heq]
    · rw [hstep]

section Later

omit [Field K] [LinearOrder K] [FloorRing K]
variable {m : Machine (Deployment K) (DeploymentEvent K)} {events events' : List (DeploymentEvent K)}

/-- Tried and left together are the candidates of the one lookup. -/
theorem Tried.candidates {callId : ℕ} {sessionId : String} {body : GenerateBody K}
    {tried rest : List Node} (h : Tried m digest callId sessionId body events tried rest) :
    ∃ is u, is ++ [.generate callId sessionId body] <+: events ∧ m.Run is u ∧
      u.router.ring.getNodesForKey digest sessionId workerNodes.length = .ok (tried ++ rest) := by
  induction h with
  | looked hr hc => exact ⟨_, _, List.prefix_rfl, hr, hc⟩
  | other h he ih =>
    obtain ⟨is, u, hp, hr, hc⟩ := ih
    exact ⟨is, u, hp.trans (List.prefix_append _ _), hr, hc⟩
  | unhealthy h hr hsick ih =>
    obtain ⟨is, u, hp, hr, hc⟩ := ih
    exact ⟨is, u, hp.trans (List.prefix_append _ _), hr, by simpa using hc⟩

theorem Chosen.later {callId : ℕ} {sessionId : String} {body : GenerateBody K} {node : Node}
    (h : Chosen m digest events callId sessionId body node) (hp : events <+: events') :
    Chosen m digest events' callId sessionId body node := by
  obtain ⟨is, u, tried, rest, hcheck, hchosen⟩ := h
  exact ⟨is, u, tried, rest, hcheck.trans hp, hchosen⟩

/-- A step that is no health check of the call. -/
theorem Stands.other {call : RouterCall K} {e : DeploymentEvent K}
    (h : Stands m digest events call) (he : e ≠ .check call.callId) :
    Stands m digest (events ++ [e]) call := by
  unfold Stands at h ⊢
  cases hpoint : call.point with
  | choosing rest =>
    rw [hpoint] at h
    obtain ⟨tried, htried⟩ := h
    exact ⟨tried, htried.other he⟩
  | chosen | waiting =>
    rw [hpoint] at h
    exact Chosen.later h (List.prefix_append _ _)

end Later

section Step

variable {m : Machine (Deployment K) (DeploymentEvent K)} {events events' : List (DeploymentEvent K)}

theorem Explained.later {a : RouterAnswered K} (h : Explained m digest errorText events s a)
    (hp : events <+: events') (hg : Grown s s') : Explained m digest errorText events' s' a := by
  cases h with
  | noneHealthy hcall hcheck htried =>
    exact .noneHealthy (hp.subset hcall) (hcheck.trans hp) htried
  | unreachable hcall hchosen => exact .unreachable (hp.subset hcall) (hchosen.later hp)
  | timedOut hcall hchosen => exact .timedOut (hp.subset hcall) (hchosen.later hp)
  | unprocessable hcall hchosen hbody =>
    exact .unprocessable (hp.subset hcall) (hchosen.later hp) hbody
  | answered hcall hchosen hpost ha =>
    exact .answered (hp.subset hcall) (hchosen.later hp) (hg.posts _ hpost _ rfl)
      ((hg.answers _).subset ha)

theorem Traced.calls_step (h : Traced m digest errorText events s) (hids : s.Ids)
    (hr : m.Run events s) (hs : Stepped digest errorText s e s') :
    ∀ c ∈ s'.calls, .generate c.callId c.sessionId c.body ∈ events ++ [e] ∧
      Stands m digest (events ++ [e]) c := by
  have hasked : ∀ c ∈ s.calls, .generate c.callId c.sessionId c.body ∈ events ++ [e] :=
    fun c hc => List.mem_append_left _ (h.asked c hc)
  have hold : ∀ c ∈ s.calls, e ≠ .check c.callId →
      .generate c.callId c.sessionId c.body ∈ events ++ [e] ∧ Stands m digest (events ++ [e]) c :=
    fun c hc he => ⟨hasked c hc, (h.points c hc).other he⟩
  -- one call goes on, and a health check is its own; where it goes depends on where it stood
  have hmoved : ∀ {call : RouterCall K} {point : RoutePoint K}, call ∈ s.calls →
      (∀ callId, e = .check callId → callId = call.callId) →
      Stands m digest (events ++ [e]) { call with point } → ∀ c ∈ (s.move call point).calls,
        .generate c.callId c.sessionId c.body ∈ events ++ [e] ∧
          Stands m digest (events ++ [e]) c := by
    intro call point hcall he hpoint c hc
    rcases hids.mem_move hcall hc with rfl | ⟨hc, hne⟩
    · exact ⟨hasked call hcall, hpoint⟩
    · exact hold c hc fun heq => hne (he _ heq)
  cases hs with
  | routed | worked | keyError | delivered | unprocessable =>
    exact fun c hc => hold c hc (by simp)
  | received | rejected | unreachable | timedOut =>
    exact fun c hc => hold c (List.mem_of_mem_filter hc) (by simp)
  | noneLeft =>
    intro c hc
    obtain ⟨hc, hne⟩ := List.mem_filter.mp hc
    refine hold c hc fun heq => of_decide_eq_true hne ?_
    exact (DeploymentEvent.check.inj heq).symm
  | called hc =>
    intro c hmem
    rcases List.mem_cons.mp hmem with rfl | hmem
    · exact ⟨List.mem_append_right _ (List.mem_singleton_self _), [], .looked hr hc⟩
    · exact hold c hmem (by simp)
  | @chosen call node rest hcall hp hh =>
    have hpoint := h.points call hcall
    rw [Stands, hp] at hpoint
    obtain ⟨tried, htried⟩ := hpoint
    exact hmoved hcall (fun _ he => (DeploymentEvent.check.inj he).symm)
      ⟨events, s, tried, rest, List.prefix_rfl, hr, htried, hh⟩
  | @passed call node rest hcall hp hh =>
    have hpoint := h.points call hcall
    rw [Stands, hp] at hpoint
    obtain ⟨tried, htried⟩ := hpoint
    exact hmoved hcall (fun _ he => (DeploymentEvent.check.inj he).symm)
      ⟨tried ++ [node], htried.unhealthy hr hh⟩
  | @posted call node t0 hcall hp =>
    have hpoint := h.points call hcall
    rw [Stands, hp] at hpoint
    exact hmoved hcall (fun _ he => by cases he) (Chosen.later hpoint (List.prefix_append _ _))

theorem Traced.answers_step (h : Traced m digest errorText events s) (hids : s.Ids)
    (hwf : s.router.ring.WellFormed digest) (hs : Stepped digest errorText s e s') :
    ∀ a ∈ s'.answers, Explained m digest errorText (events ++ [e]) s' a := by
  have hpre : events <+: events ++ [e] := List.prefix_append _ _
  have hg := grown_step hids hs
  have hold : ∀ a ∈ s.answers, Explained m digest errorText (events ++ [e]) s' a :=
    fun a ha => (h.answers a ha).later hpre hg
  have hadd : ∀ {call : RouterCall K} {r : RouterAnswer K},
      Explained m digest errorText (events ++ [e]) s' ⟨call.callId, r⟩ →
        ∀ a ∈ (s.answer call r).answers, Explained m digest errorText (events ++ [e]) s' a := by
    intro call r hexp a ha
    rcases List.mem_append.mp ha with ha | ha
    · exact hold a ha
    · rwa [List.mem_singleton.mp ha]
  have hnew : ∀ {call : RouterCall K} {r : RouterAnswer K},
      Explained m digest errorText events s ⟨call.callId, r⟩ →
        ∀ a ∈ (s.answer call r).answers, Explained m digest errorText (events ++ [e]) s' a :=
    fun hexp => hadd (hexp.later hpre hg)
  have hwaits : ∀ {call : RouterCall K} {node : Node} {t0 : K}, call ∈ s.calls →
      call.point = .waiting node t0 →
        Chosen m digest events call.callId call.sessionId call.body node := by
    intro call node t0 hcall hp
    have hpoint := h.points call hcall
    rwa [Stands, hp] at hpoint
  -- the request that was sent is the call's own
  have hown : ∀ {call : RouterCall K} {node : Node} {t0 : K} {post : Post K}, call ∈ s.calls →
      call.point = .waiting node t0 → post ∈ s.posts → post.callId = call.callId →
        post = ⟨call.callId, node.address, call.body, post.state⟩ := by
    intro call node t0 post hcall hp hpost hid
    obtain ⟨state, hsent⟩ := hids.sent call hcall node t0 hp
    obtain rfl := hids.post_unique hpost hsent hid
    rfl
  cases hs with
  | routed | worked | called | chosen | passed | posted | delivered | unprocessable => exact hold
  | @keyError _ sessionId _ _ he =>
    rw [hwf.canonical.getNodesForKey_eq_take sessionId (by decide)] at he
    cases he
  | noneLeft hcall hp =>
    have hpoint := h.points _ hcall
    rw [Stands, hp] at hpoint
    obtain ⟨tried, htried⟩ := hpoint
    exact hadd (.noneHealthy (hpre.subset (h.asked _ hcall)) List.prefix_rfl htried)
  | @received call post node t0 now a hcall hpost hid hp hst ha =>
    have heq := hown hcall hp hpost hid
    rw [hst] at heq
    exact hnew (.answered (h.asked _ hcall) (hwaits hcall hp) (heq ▸ hpost) ha)
  | @rejected call post node t0 now hcall hpost hid hp hst =>
    have hbody := h.unprocessable post hpost hst
    rw [hown hcall hp hpost hid] at hbody
    exact hnew (.unprocessable (h.asked _ hcall) (hwaits hcall hp) hbody)
  | unreachable hcall hp => exact hnew (.unreachable (h.asked _ hcall) (hwaits hcall hp))
  | timedOut hcall hp => exact hnew (.timedOut (h.asked _ hcall) (hwaits hcall hp))

theorem Traced.posts_step (h : Traced m digest errorText events s) (hids : s.Ids)
    (hr : m.Run events s) (hs : Stepped digest errorText s e s') :
    ∀ p ∈ s'.posts, (p.state = .unprocessable → p.body.validate = none) ∧
      ∀ ref, p.state = .accepted ref → ∃ body requestId arrivalTime t0 now,
        p.body.validate = some body ∧ .generate body ref requestId arrivalTime t0 now ∈
          m.shown (seenAt p.address) (events ++ [e]) := by
  have hold : ∀ p ∈ s.posts, (p.state = .unprocessable → p.body.validate = none) ∧
      ∀ ref, p.state = .accepted ref → ∃ body requestId arrivalTime t0 now,
        p.body.validate = some body ∧ .generate body ref requestId arrivalTime t0 now ∈
          m.shown (seenAt p.address) (events ++ [e]) := by
    intro p hp
    refine ⟨h.unprocessable p hp, fun ref hacc => ?_⟩
    obtain ⟨body, requestId, arrivalTime, t0, now, hbody, hmem⟩ := h.accepted p hp ref hacc
    rw [m.shown_snoc _ hr]
    exact ⟨body, requestId, arrivalTime, t0, now, hbody, List.mem_append_left _ hmem⟩
  cases hs with
  | posted =>
    intro p hp
    rcases List.mem_append.mp hp with hp | hp
    · exact hold p hp
    · rw [List.mem_singleton.mp hp]
      exact ⟨(fun hst => by cases hst), fun ref hst => by cases hst⟩
  | @delivered post body ref requestId arrivalTime t0 now hfind hst hbody =>
    intro p hp
    rcases hids.mem_settle (find_post hfind).1 hp with rfl | hp
    · refine ⟨(fun hst => by cases hst), fun ref' hst' => ?_⟩
      obtain rfl := PostState.accepted.inj hst'
      refine ⟨body, requestId, arrivalTime, t0, now, hbody, ?_⟩
      have hat := atWorker_deliver ref requestId arrivalTime t0 now hfind
      rw [hbody, Option.map_some] at hat
      rw [m.shown_snoc _ hr, seenAt, hat]
      simp
    · exact hold p hp
  | @unprocessable post _ _ _ _ _ hfind hst hbody =>
    intro p hp
    rcases hids.mem_settle (find_post hfind).1 hp with rfl | hp
    · exact ⟨fun _ => hbody, fun ref hst => by cases hst⟩
    · exact hold p hp
  | _ => exact hold

theorem Traced.step (h : Traced m digest errorText events s) (hids : s.Ids)
    (hr : m.Run events s) (hwf : s.router.ring.WellFormed digest)
    (hs : Stepped digest errorText s e s') : Traced m digest errorText (events ++ [e]) s' := by
  have hcalls := h.calls_step hids hr hs
  have hposts := h.posts_step hids hr hs
  exact ⟨fun c hc => (hcalls c hc).1, fun c hc => (hcalls c hc).2, h.answers_step hids hwf hs,
    fun p hp => (hposts p hp).1, fun p hp => (hposts p hp).2⟩

/-- Two requests never become one request object. -/
def Distinct (s : Deployment K) : Prop :=
  ∀ p ∈ s.posts, ∀ q ∈ s.posts, p.address = q.address → ∀ ref,
    p.state = .accepted ref → q.state = .accepted ref → p = q

omit [Field K] [LinearOrder K] [FloorRing K] in
theorem Distinct.settle (h : s.Distinct) (hids : s.Ids) {post : Post K} (hpost : post ∈ s.posts)
    {state : PostState} (hnew : ∀ p ∈ s.posts, p.address = post.address → ∀ ref,
      p.state = .accepted ref → state ≠ .accepted ref) :
    (s.settle post.callId state).Distinct := by
  intro p hp q hq heq ref hpacc hqacc
  rcases hids.mem_settle hpost hp with rfl | hp
  · rcases hids.mem_settle hpost hq with rfl | hq
    · rfl
    · exact absurd hpacc (hnew q hq heq.symm ref hqacc)
  · rcases hids.mem_settle hpost hq with rfl | hq
    · exact absurd hqacc (hnew p hp heq ref hpacc)
    · exact h p hp q hq heq ref hpacc hqacc

end Step

/-! ### Whole runs -/

variable {maxBatchSize : ℕ} {rate burst : K} {now : String → K}
variable {events : List (DeploymentEvent K)}

theorem router_reachable (h : (machine digest errorText maxBatchSize rate burst now).Run events s) :
    (RouterSystem.machine digest K).Reachable s.router := by
  refine Machine.Reachable.invariant (I := fun s : Deployment K =>
    (RouterSystem.machine digest K).Reachable s.router) ⟨[], .nil⟩ ?_ ⟨events, h⟩
  intro s e s' hr hs
  have hsame : s'.router = s.router → (RouterSystem.machine digest K).Reachable s'.router :=
    fun heq => heq ▸ hr
  cases stepped hs with
  | routed hstep =>
    obtain ⟨events, hrun⟩ := hr
    exact ⟨_, hrun.snoc hstep⟩
  | _ => exact hsame rfl

theorem traced_of_run (h : (machine digest errorText maxBatchSize rate burst now).Run events s)
    (hok : (machine digest errorText maxBatchSize rate burst now).Meets
      (fun s e => s.allowed e) events) :
    s.Ids ∧ Traced (machine digest errorText maxBatchSize rate burst now) digest errorText events s := by
  induction h with
  | nil => refine ⟨?_, ?_⟩ <;> constructor <;> simp [machine]
  | @snoc is s e s' hr hs ih =>
    obtain ⟨hids, htraced⟩ := ih (hok.mono (List.prefix_append _ _))
    obtain ⟨hfresh, -⟩ := Bool.and_eq_true_iff.mp (hok.last hr)
    have hwf := RouterSystem.reachable_wellFormed (router_reachable hr)
    exact ⟨hids.step hfresh (stepped hs), htraced.step hids hr hwf (stepped hs)⟩

theorem workers_allowed (hok : (machine digest errorText maxBatchSize rate burst now).Meets
      (fun s e => s.allowed e) events) :
    (machine digest errorText maxBatchSize rate burst now).Meets
      (fun s e => s.workersMeet (fun _ worker e => worker.allowed e) e) events :=
  fun js e hp u hu => (Bool.and_eq_true_iff.mp (hok js e hp u hu)).2

theorem forwarded_eq_ok {node : Node} {sessionId : String} {elapsed : K} {answer : Answer K}
    {r : RouterResponse K} (h : forwarded errorText node sessionId elapsed answer = .ok r) :
    answer = .ok r.response ∧ r.sessionId = sessionId ∧ r.routedTo = node.nodeId := by
  cases answer with
  | ok response =>
    obtain rfl := RouterAnswer.ok.inj h
    exact ⟨rfl, rfl, rfl⟩
  | http | unhandled => cases h

/-- An answer with a text comes from the model of the worker that was chosen for the call's
session, and is the one for the call's own prompt. -/
theorem end_to_end {tokenizer : String → Tokenizer} {model : String → ℕ → Generate K}
    (hmax : 1 ≤ maxBatchSize)
    (h : (machine digest errorText maxBatchSize rate burst now).Run events s)
    (hok : (machine digest errorText maxBatchSize rate burst now).Meets
      (fun s e => s.allowed e) events)
    (hruns : (machine digest errorText maxBatchSize rate burst now).Meets
      (fun s e => s.workersMeet (fun address worker e =>
        worker.runsModel (tokenizer address) (model address) e) e) events)
    {a : RouterAnswered K} (ha : a ∈ s.answers) {r : RouterResponse K} (hr : a.answer = .ok r) :
    ∃ body valid node ref arrivalTime, ∃ k : ℕ, ∃ batch, ∃ i : ℕ, ∃ result,
      .generate a.callId r.sessionId body ∈ events ∧ body.validate = some valid ∧
      r.routedTo = node.nodeId ∧
      Chosen (machine digest errorText maxBatchSize rate burst now) digest events a.callId
        r.sessionId body node ∧
      ((s.workers node.address).system.history.served.map Prod.fst)[k]? = some batch ∧
      batch[i]? = some (valid.request ref r.response.requestId arrivalTime) ∧
      OwnRow (tokenizer node.address) (model node.address k) batch valid.prompt i result ∧
      r.response.text = result.text ∧ r.response.promptTokens = result.promptTokens ∧
      r.response.generatedTokens = result.generatedTokens := by
  have htraced := (traced_of_run h hok).2
  have hexp := htraced.answers a ha
  cases hexp with
  | @answered callId sessionId body node elapsed a hcall hchosen hpost hanswer =>
    obtain ⟨hresponse, rfl, hrouted⟩ := forwarded_eq_ok hr
    obtain ⟨valid, requestId, arrivalTime, t0, start, hvalid, hmem⟩ :=
      htraced.accepted _ hpost _ rfl
    obtain ⟨hrun, hallowed⟩ := worker_run h (workers_allowed hok) node.address
    obtain ⟨-, hmodel⟩ := worker_run h hruns node.address
    obtain ⟨valid', arrivalTime', t0', start', k, batch, i, result, hmem', hbatch, hi, hrow, htext⟩ :=
      Server.integrity_of_answer hmax hrun hallowed hmodel hanswer hresponse
    have hsame := Server.call_unique (Server.made_once hrun hallowed).1 hmem hmem' rfl rfl
    obtain ⟨rfl, -⟩ := ServerEvent.generate.inj hsame
    exact ⟨body, valid, node, a.ref, arrivalTime', k, batch, i, result, hcall, hvalid, hrouted,
      hchosen, hbatch, hi, hrow, htext⟩
  | _ => cases hr

/-! ### Two calls -/

/-- What a client reads in an answer with a text. -/
def read : RouterAnswer K → Option (String × String)
  | .ok r => some (r.routedTo, r.response.text)
  | .http _ | .unhandled _ => none

/-- With this digest every session tries `worker-a` first. -/
theorem lookup_constant (sessionId : String) :
    (RouterSystem.init (fun _ => 0) ℚ).ring.getNodesForKey (fun _ => 0) sessionId
      workerNodes.length = .ok workerNodes := by
  have hw := RouterSystem.reachable_wellFormed (s := RouterSystem.init (fun _ => 0) ℚ) ⟨[], .nil⟩
  have hkeys : (RouterSystem.init (fun _ => 0) ℚ).ring.nodes.keys = ["worker-a", "worker-b"] := rfl
  have howners : ConsistentHashRing.owners (fun _ => 0) (RouterSystem.init (fun _ => 0) ℚ).ring
      sessionId = ["worker-a", "worker-b"] := by
    have hp := hw.canonical.owners_perm hw.populated sessionId
    rw [hkeys] at hp
    exact hp.eq_of_pairwise (fun _ _ _ _ => le_antisymm)
      (RouterSystem.owners_sorted hw.canonical _) (by decide)
  rw [hw.canonical.getNodesForKey_eq_take sessionId (by decide), ConsistentHashRing.memberOrder,
    howners]
  rfl

def cluster : Machine (Deployment ℚ) (DeploymentEvent ℚ) :=
  machine (fun _ => 0) (fun _ _ => "") 8 50 20 fun _ => 0

/-- Both calls have looked their candidates up. -/
def twoCalls : Deployment ℚ :=
  { cluster.init with calls := [⟨8, "b", { prompt := some "hello" }, .choosing workerNodes⟩,
      ⟨7, "a", { prompt := some "hello" }, .choosing workerNodes⟩] }

def lookups : List (DeploymentEvent ℚ) :=
  [.generate 7 "a" { prompt := some "hello" }, .generate 8 "b" { prompt := some "hello" }]

/-- Only `worker-b` has answered its health checks. One of the requests arrives at once, the
other one after the router has given up. -/
def failedOver : List (DeploymentEvent ℚ) :=
  let valid : GenerateRequest ℚ := { prompt := "hello", temperature := 4 / 5, topP := 19 / 20 }
  let served : List (SchedulerEvent ℚ) := [.worker .start, .push (valid.request 1 "r" 0),
    .worker .checkRunning, .worker (.popFirst false), .worker (.checkFull true),
    .worker (.runBatch (.ok [⟨"five", 2, 1⟩])), .worker .resolve]
  [.router (.check "worker-b" true), .router (.check "worker-b" true), .check 7, .check 7, .check 8,
    .check 8, .post 7 0, .post 8 0, .deliver 7 1 "r" 0 0 0, .timedOut 8, .deliver 8 2 "q" 0 0 0] ++
    served.map (fun e => .worker "http://127.0.0.1:8002" (.scheduler e)) ++
    [.worker "http://127.0.0.1:8002" (.result 1 1), .receive 7 2]

theorem step_lookup {t : Deployment ℚ} (ht : t.router.ring = (RouterSystem.init (fun _ => 0) ℚ).ring)
    (callId : ℕ) (sessionId : String) (body : GenerateBody ℚ) :
    cluster.step t (.generate callId sessionId body) = some { t with
      calls := ⟨callId, sessionId, body, .choosing workerNodes⟩ :: t.calls } := by
  show some (t.generate (fun _ => 0) callId sessionId body) = _
  rw [Deployment.generate, ht, lookup_constant]

theorem exec_lookups (events : List (DeploymentEvent ℚ)) :
    cluster.exec cluster.init (lookups ++ events) = cluster.exec twoCalls events := by
  rw [lookups, List.cons_append, List.cons_append, List.nil_append, Machine.exec, step_lookup rfl,
    Option.bind_some, Machine.exec, step_lookup rfl]
  rfl

theorem meets_lookups {ok : Deployment ℚ → DeploymentEvent ℚ → Bool}
    {events : List (DeploymentEvent ℚ)}
    (hfirst : ok cluster.init (.generate 7 "a" { prompt := some "hello" }) = true)
    (hsecond : ok { cluster.init with calls :=
        [⟨7, "a", { prompt := some "hello" }, .choosing workerNodes⟩] }
      (.generate 8 "b" { prompt := some "hello" }) = true)
    (hevents : cluster.checks ok twoCalls events = true) :
    cluster.Meets (fun s e => ok s e) (lookups ++ events) := by
  refine Machine.meets_of_checks _ ?_
  rw [lookups, List.cons_append, List.cons_append, List.nil_append, Machine.checks, hfirst,
    step_lookup rfl, Option.all_some, Bool.true_and, Machine.checks]
  refine Bool.and_eq_true_iff.mpr ⟨hsecond, ?_⟩
  rw [step_lookup rfl, Option.all_some]
  exact hevents

theorem allowed_failedOver : cluster.Meets (fun s e => s.allowed e) (lookups ++ failedOver) :=
  meets_lookups (by decide +kernel) (by decide +kernel) (by decide +kernel)

theorem end_to_end_failedOver : ∃ s, ∃ a ∈ s.answers, ∃ r, cluster.Run (lookups ++ failedOver) s ∧
    a.answer = .ok r ∧ r.routedTo = "worker-b" ∧
    ∃ body valid node ref arrivalTime, ∃ k : ℕ, ∃ batch, ∃ i : ℕ, ∃ result,
      .generate a.callId r.sessionId body ∈ lookups ++ failedOver ∧ body.validate = some valid ∧
      r.routedTo = node.nodeId ∧
      Chosen cluster (fun _ => 0) (lookups ++ failedOver) a.callId r.sessionId body node ∧
      ((s.workers node.address).system.history.served.map Prod.fst)[k]? = some batch ∧
      batch[i]? = some (valid.request ref r.response.requestId arrivalTime) ∧
      OwnRow Server.twoWords Server.repeats batch valid.prompt i result ∧
      r.response.text = result.text ∧ r.response.promptTokens = result.promptTokens ∧
      r.response.generatedTokens = result.generatedTokens := by
  have hexec : (cluster.exec twoCalls failedOver).map
      (fun s => s.answers.map fun a => read a.answer) =
        some [none, some ("worker-b", "five")] := by
    decide +kernel
  have hruns : cluster.Meets (fun s e => s.workersMeet (fun _ worker e =>
      worker.runsModel Server.twoWords (fun _ => Server.repeats) e) e) (lookups ++ failedOver) :=
    meets_lookups (by decide +kernel) (by decide +kernel) (by decide +kernel)
  obtain ⟨s, hs, hread⟩ := Option.map_eq_some_iff.mp hexec
  have hr := (Machine.run_iff_exec _).mpr ((exec_lookups failedOver).trans hs)
  have hmem : some ("worker-b", "five") ∈ s.answers.map fun a => read a.answer := by
    rw [hread]
    decide
  obtain ⟨a, ha, hanswer⟩ := List.mem_map.mp hmem
  cases hok : a.answer with
  | ok r =>
    rw [hok] at hanswer
    obtain ⟨hrouted, -⟩ := Prod.mk.inj (Option.some.inj hanswer)
    exact ⟨s, a, ha, r, hr, hok, hrouted,
      end_to_end (by decide) hr allowed_failedOver hruns ha hok⟩
  | http | unhandled =>
    rw [hok] at hanswer
    cases hanswer

end Deployment
end InferenceCluster
