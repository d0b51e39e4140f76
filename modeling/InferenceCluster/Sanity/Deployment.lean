import InferenceCluster.Lib.Progress
import InferenceCluster.Sanity.Api
import InferenceCluster.Spec.Deployment

/-! What a step of a deployment can do, the run of each worker in it, and the ids of the calls. -/

namespace InferenceCluster
namespace Deployment

variable {K : Type} [Field K] [LinearOrder K] [FloorRing K]
variable {digest : String → ℕ} {errorText : ℕ → String → String}

/-- The steps, one constructor for each section and outcome. -/
inductive Stepped (digest : String → ℕ) (errorText : ℕ → String → String) (s : Deployment K) :
    DeploymentEvent K → Deployment K → Prop
  | routed {e : RouterEvent K} {router : RouterSystem K} (hr : s.router.step digest e = some router) :
      Stepped digest errorText s (.router e) { s with router }
  | worked {address : String} {e : ServerEvent K} {worker : Server K}
      (hw : (s.workers address).step e = some worker) :
      Stepped digest errorText s (.worker address e)
        { s with workers := Function.update s.workers address worker }
  | called {callId : ℕ} {sessionId : String} {body : GenerateBody K} {candidates : List Node}
      (hc : s.router.ring.getNodesForKey digest sessionId workerNodes.length = .ok candidates) :
      Stepped digest errorText s (.generate callId sessionId body)
        { s with calls := ⟨callId, sessionId, body, .choosing candidates⟩ :: s.calls }
  | keyError {callId : ℕ} {sessionId : String} {body : GenerateBody K} {e : PyDict.KeyError String}
      (he : s.router.ring.getNodesForKey digest sessionId workerNodes.length = .error e) :
      Stepped digest errorText s (.generate callId sessionId body)
        { s with answers := s.answers ++ [⟨callId, .unhandled e⟩] }
  | noneLeft {call : RouterCall K} (hcall : call ∈ s.calls) (hp : call.point = .choosing []) :
      Stepped digest errorText s (.check call.callId) (s.answer call (.http noHealthyWorkers))
  | chosen {call : RouterCall K} {node : Node} {rest : List Node} (hcall : call ∈ s.calls)
      (hp : call.point = .choosing (node :: rest))
      (hh : s.router.monitor.isHealthy node.nodeId = true) :
      Stepped digest errorText s (.check call.callId) (s.move call (.chosen node))
  | passed {call : RouterCall K} {node : Node} {rest : List Node} (hcall : call ∈ s.calls)
      (hp : call.point = .choosing (node :: rest))
      (hh : s.router.monitor.isHealthy node.nodeId = false) :
      Stepped digest errorText s (.check call.callId) (s.move call (.choosing rest))
  | posted {call : RouterCall K} {node : Node} {t0 : K} (hcall : call ∈ s.calls)
      (hp : call.point = .chosen node) :
      Stepped digest errorText s (.post call.callId t0) { s.move call (.waiting node t0) with
        posts := s.posts ++ [⟨call.callId, node.address, call.body, .inFlight⟩] }
  | delivered {post : Post K} {body : GenerateRequest K} {ref : ℕ} {requestId : String}
      {arrivalTime t0 now : K}
      (hfind : s.posts.find? (·.callId = post.callId) = some post) (hst : post.state = .inFlight)
      (hbody : post.body.validate = some body) :
      Stepped digest errorText s (.deliver post.callId ref requestId arrivalTime t0 now)
        { s.settle post.callId (.accepted ref) with
          workers := Function.update s.workers post.address
            ((s.workers post.address).generate body ref requestId arrivalTime t0 now) }
  | unprocessable {post : Post K} {ref : ℕ} {requestId : String} {arrivalTime t0 now : K}
      (hfind : s.posts.find? (·.callId = post.callId) = some post) (hst : post.state = .inFlight)
      (hbody : post.body.validate = none) :
      Stepped digest errorText s (.deliver post.callId ref requestId arrivalTime t0 now)
        (s.settle post.callId .unprocessable)
  | received {call : RouterCall K} {post : Post K} {node : Node} {t0 now : K} {a : Answered K}
      (hcall : call ∈ s.calls) (hpost : post ∈ s.posts) (hid : post.callId = call.callId)
      (hp : call.point = .waiting node t0) (hst : post.state = .accepted a.ref)
      (ha : a ∈ (s.workers node.address).answers) :
      Stepped digest errorText s (.receive call.callId now)
        (s.answer call (forwarded errorText node call.sessionId (now - t0) a.answer))
  | rejected {call : RouterCall K} {post : Post K} {node : Node} {t0 now : K}
      (hcall : call ∈ s.calls) (hpost : post ∈ s.posts) (hid : post.callId = call.callId)
      (hp : call.point = .waiting node t0) (hst : post.state = .unprocessable) :
      Stepped digest errorText s (.receive call.callId now)
        (s.answer call (.http ⟨422, errorText 422 (node.address ++ "/generate")⟩))
  | unreachable {call : RouterCall K} {node : Node} {t0 : K} (hcall : call ∈ s.calls)
      (hp : call.point = .waiting node t0) :
      Stepped digest errorText s (.unreachable call.callId)
        (s.answer call (.http (InferenceCluster.unreachable node)))
  | timedOut {call : RouterCall K} {node : Node} {t0 : K} (hcall : call ∈ s.calls)
      (hp : call.point = .waiting node t0) :
      Stepped digest errorText s (.timedOut call.callId)
        (s.answer call (.http (InferenceCluster.timedOut node)))

omit [Field K] [LinearOrder K] [FloorRing K] in
theorem find_call {s : Deployment K} {callId : ℕ} {call : RouterCall K}
    (h : s.calls.find? (·.callId = callId) = some call) : call ∈ s.calls ∧ call.callId = callId :=
  ⟨List.mem_of_find?_eq_some h, by simpa using List.find?_some h⟩

omit [Field K] [LinearOrder K] [FloorRing K] in
theorem find_post {s : Deployment K} {callId : ℕ} {post : Post K}
    (h : s.posts.find? (·.callId = callId) = some post) : post ∈ s.posts ∧ post.callId = callId :=
  ⟨List.mem_of_find?_eq_some h, by simpa using List.find?_some h⟩

omit [Field K] [LinearOrder K] [FloorRing K] in
theorem fail_eq_some {s s' : Deployment K} {callId : ℕ} {e : Node → HTTPException}
    (h : s.fail callId e = some s') : ∃ call ∈ s.calls, ∃ node t0, call.callId = callId ∧
      call.point = .waiting node t0 ∧ s' = s.answer call (.http (e node)) := by
  obtain ⟨call, hfind, h⟩ := Option.bind_eq_some_iff.mp h
  obtain ⟨hcall, hid⟩ := find_call hfind
  cases hp : call.point with
  | waiting node t0 =>
    rw [hp] at h
    exact ⟨call, hcall, node, t0, hid, hp, (Option.some.inj h).symm⟩
  | _ => rw [hp] at h; cases h

theorem stepped {s s' : Deployment K} {e : DeploymentEvent K}
    (h : s.step digest errorText e = some s') : Stepped digest errorText s e s' := by
  cases e with
  | router e =>
    obtain ⟨router, hr, rfl⟩ := Option.map_eq_some_iff.mp h
    exact .routed hr
  | worker address e =>
    obtain ⟨worker, hw, rfl⟩ := Option.map_eq_some_iff.mp h
    exact .worked hw
  | generate callId sessionId body =>
    obtain rfl := Option.some.inj h
    unfold Deployment.generate
    cases hc : s.router.ring.getNodesForKey digest sessionId workerNodes.length with
    | ok candidates => exact .called hc
    | error e => exact .keyError hc
  | check callId =>
    obtain ⟨call, hfind, hs⟩ := Option.bind_eq_some_iff.mp h
    obtain ⟨hcall, rfl⟩ := find_call hfind
    cases hp : call.point with
    | choosing candidates =>
      rw [hp] at hs
      cases candidates with
      | nil => exact Option.some.inj hs ▸ .noneLeft hcall hp
      | cons node rest =>
        obtain rfl := Option.some.inj hs
        cases hh : s.router.monitor.isHealthy node.nodeId with
        | true => exact .chosen hcall hp hh
        | false => exact .passed hcall hp hh
    | _ => rw [hp] at hs; cases hs
  | post callId t0 =>
    obtain ⟨call, hfind, hs⟩ := Option.bind_eq_some_iff.mp h
    obtain ⟨hcall, rfl⟩ := find_call hfind
    cases hp : call.point with
    | chosen node =>
      rw [hp] at hs
      exact Option.some.inj hs ▸ .posted hcall hp
    | _ => rw [hp] at hs; cases hs
  | deliver callId ref requestId arrivalTime t0 now =>
    obtain ⟨post, hfind, hs⟩ := Option.bind_eq_some_iff.mp h
    obtain ⟨hpost, rfl⟩ := find_post hfind
    cases hst : post.state with
    | inFlight =>
      cases hbody : post.body.validate with
      | some body =>
        rw [hst, hbody] at hs
        exact Option.some.inj hs ▸ .delivered hfind hst hbody
      | none =>
        rw [hst, hbody] at hs
        exact Option.some.inj hs ▸ .unprocessable hfind hst hbody
    | _ => rw [hst] at hs; cases hs
  | receive callId now =>
    obtain ⟨call, hfind, hrest⟩ := Option.bind_eq_some_iff.mp h
    obtain ⟨post, hfind', hs⟩ := Option.bind_eq_some_iff.mp hrest
    obtain ⟨hcall, rfl⟩ := find_call hfind
    obtain ⟨hpost, hid⟩ := find_post hfind'
    cases hp : call.point with
    | waiting node t0 =>
      cases hst : post.state with
      | accepted ref =>
        rw [hp, hst] at hs
        obtain ⟨a, ha, hanswer⟩ := Option.bind_eq_some_iff.mp hs
        obtain rfl : a.ref = ref := by simpa using List.find?_some ha
        exact Option.some.inj hanswer ▸
          .received hcall hpost hid hp hst (List.mem_of_find?_eq_some ha)
      | unprocessable =>
        rw [hp, hst] at hs
        exact Option.some.inj hs ▸ .rejected hcall hpost hid hp hst
      | inFlight => rw [hp, hst] at hs; cases hs
    | _ => rw [hp] at hs; cases hs
  | unreachable callId =>
    obtain ⟨call, hcall, node, t0, rfl, hp, rfl⟩ := fail_eq_some h
    exact .unreachable hcall hp
  | timedOut callId =>
    obtain ⟨call, hcall, node, t0, rfl, hp, rfl⟩ := fail_eq_some h
    exact .timedOut hcall hp

/-! ### The run of a worker -/

omit [FloorRing K] in
theorem atWorker_deliver {s : Deployment K} {post : Post K} (ref : ℕ) (requestId : String)
    (arrivalTime t0 now : K) (hfind : s.posts.find? (·.callId = post.callId) = some post) :
    s.atWorker (.deliver post.callId ref requestId arrivalTime t0 now) =
      post.body.validate.map fun body =>
        (post.address, .generate body ref requestId arrivalTime t0 now) := by
  rw [atWorker, delivery, hfind, Option.bind_eq_bind, Option.bind_some]
  cases post.body.validate <;> rfl

/-- A step is one of the worker that sees it, and leaves the others as they are. -/
theorem worker_step {s s' : Deployment K} {e : DeploymentEvent K}
    (hs : Stepped digest errorText s e s') (address : String) :
    match s.atWorker e with
    | some (a, k) => (s.workers a).step k = some (s'.workers a) ∧
        (a ≠ address → s'.workers address = s.workers address)
    | none => s'.workers address = s.workers address := by
  cases hs with
  | @worked a e worker hw =>
    refine ⟨hw.trans ?_, fun hne => Function.update_of_ne (Ne.symm hne) _ _⟩
    exact congrArg some (Function.update_self a worker s.workers).symm
  | @delivered post body ref requestId arrivalTime t0 now hfind hst hbody =>
    rw [atWorker_deliver ref requestId arrivalTime t0 now hfind, hbody]
    refine ⟨?_, fun hne => Function.update_of_ne (Ne.symm hne) _ _⟩
    exact congrArg some (Function.update_self post.address _ s.workers).symm
  | @unprocessable post ref requestId arrivalTime t0 now hfind hst hbody =>
    rw [atWorker_deliver ref requestId arrivalTime t0 now hfind, hbody]
    rfl
  | _ => rfl

variable {maxBatchSize : ℕ} {rate burst : K} {now : String → K}

/-- What a worker sees of a run is a run of its own, in which it keeps what all do. -/
theorem worker_run {ok : String → Server K → ServerEvent K → Bool}
    {events : List (DeploymentEvent K)} {s : Deployment K}
    (h : (machine digest errorText maxBatchSize rate burst now).Run events s)
    (hok : (machine digest errorText maxBatchSize rate burst now).Meets
      (fun s e => s.workersMeet ok e) events) (address : String) :
    (Server.machine maxBatchSize rate burst (now address)).Run
      ((machine digest errorText maxBatchSize rate burst now).shown (seenAt address) events)
      (s.workers address) ∧
    (Server.machine maxBatchSize rate burst (now address)).Meets (fun s e => ok address s e)
      ((machine digest errorText maxBatchSize rate burst now).shown (seenAt address) events) := by
  have hsim : ∃ t, (Server.machine maxBatchSize rate burst (now address)).Run
      ((machine digest errorText maxBatchSize rate burst now).shown (seenAt address) events) t ∧
      (Server.machine maxBatchSize rate burst (now address)).Meets (fun s e => ok address s e)
        ((machine digest errorText maxBatchSize rate burst now).shown (seenAt address) events) ∧
      t = s.workers address := by
    refine h.simulates_of_meets (R := fun s t => t = s.workers address) _ rfl ?_ ?_ hok
    · rintro s t e s' rfl - hs hlab
      have hstep := worker_step (stepped hs) address
      rw [seenAt] at hlab
      split at hlab
      · rename_i a k hat
        rw [hat] at hstep
        split_ifs at hlab with hne
        exact (hstep.2 hne).symm
      · rename_i hat
        rw [hat] at hstep
        exact hstep.symm
    · rintro s t e s' k rfl hok hs hlab
      have hstep := worker_step (stepped hs) address
      rw [seenAt] at hlab
      split at hlab
      · rename_i a k' hat
        split_ifs at hlab with heq
        obtain rfl := heq
        obtain rfl := Option.some.inj hlab
        rw [hat] at hstep
        rw [workersMeet, hat] at hok
        exact ⟨_, hstep.1, hok, rfl⟩
      · cases hlab
  obtain ⟨t, ht, hmeets, rfl⟩ := hsim
  exact ⟨ht, hmeets⟩

/-! ### The ids of the calls -/

section Ids

omit [Field K] [LinearOrder K] [FloorRing K]

/-- Calls and answers have ids of their own; a call sends one request, when it begins to wait. -/
structure Ids (s : Deployment K) : Prop where
  once : (s.calls.map RouterCall.callId ++ s.answers.map RouterAnswered.callId).Nodup
  posts : (s.posts.map Post.callId).Nodup
  known : ∀ p ∈ s.posts,
    p.callId ∈ s.calls.map RouterCall.callId ++ s.answers.map RouterAnswered.callId
  unsent : ∀ c ∈ s.calls, c.callId ∈ s.posts.map Post.callId → ∃ node t0, c.point = .waiting node t0
  sent : ∀ c ∈ s.calls, ∀ node t0, c.point = .waiting node t0 →
    ∃ state, ⟨c.callId, node.address, c.body, state⟩ ∈ s.posts

variable {s : Deployment K} {call : RouterCall K}

theorem Ids.call_unique (h : s.Ids) {c : RouterCall K} (hcall : call ∈ s.calls) (hc : c ∈ s.calls)
    (heq : c.callId = call.callId) : c = call :=
  List.inj_on_of_nodup_map (List.nodup_append.mp h.once).1 hc hcall heq

theorem Ids.post_unique (h : s.Ids) {p q : Post K} (hp : p ∈ s.posts) (hq : q ∈ s.posts)
    (heq : p.callId = q.callId) : p = q :=
  List.inj_on_of_nodup_map h.posts hp hq heq

@[simp] theorem map_callId_move (s : Deployment K) (call : RouterCall K) (point : RoutePoint K) :
    (s.move call point).calls.map RouterCall.callId = s.calls.map RouterCall.callId := by
  rw [move, List.map_map]
  refine List.map_congr_left fun c _ => ?_
  simp only [Function.comp_apply]
  split_ifs <;> rfl

theorem Ids.mem_move (h : s.Ids) (hcall : call ∈ s.calls) {point : RoutePoint K}
    {c : RouterCall K} (hc : c ∈ (s.move call point).calls) :
    c = { call with point } ∨ c ∈ s.calls ∧ c.callId ≠ call.callId := by
  obtain ⟨c', hc', rfl⟩ := List.mem_map.mp hc
  by_cases heq : c'.callId = call.callId
  · obtain rfl := h.call_unique hcall hc' heq
    exact .inl (if_pos rfl)
  · rw [if_neg heq]
    exact .inr ⟨hc', heq⟩

/-- A step of the loop of `route`. -/
theorem Ids.move (h : s.Ids) (hcall : call ∈ s.calls) (hpoint : ∀ node t0, call.point ≠ .waiting node t0)
    {point : RoutePoint K} (hnew : ∀ node t0, point ≠ .waiting node t0) :
    (s.move call point).Ids := by
  have hunposted : call.callId ∉ s.posts.map Post.callId := fun hp => by
    obtain ⟨node, t0, heq⟩ := h.unsent call hcall hp
    exact hpoint node t0 heq
  refine ⟨?_, h.posts, ?_, fun c hc hp => ?_, fun c hc node t0 heq => ?_⟩
  · rw [map_callId_move]
    exact h.once
  · rw [map_callId_move]
    exact h.known
  · rcases h.mem_move hcall hc with rfl | ⟨hc, -⟩
    · exact absurd hp hunposted
    · exact h.unsent c hc hp
  · rcases h.mem_move hcall hc with rfl | ⟨hc, -⟩
    · exact absurd heq (hnew node t0)
    · exact h.sent c hc node t0 heq

theorem Ids.post (h : s.Ids) (hcall : call ∈ s.calls) {node : Node} {t0 : K}
    (hpoint : call.point = .chosen node) :
    ({ s.move call (.waiting node t0) with
      posts := s.posts ++ [⟨call.callId, node.address, call.body, .inFlight⟩] } :
        Deployment K).Ids := by
  have hunposted : call.callId ∉ s.posts.map Post.callId := fun hp => by
    obtain ⟨node', t0', heq⟩ := h.unsent call hcall hp
    rw [hpoint] at heq
    cases heq
  refine ⟨?_, ?_, fun p hp => ?_, fun c hc hp => ?_, fun c hc node' t0' heq => ?_⟩
  · rw [map_callId_move]
    exact h.once
  · rw [List.map_append, List.map_singleton]
    exact (List.perm_append_singleton _ _).nodup_iff.mpr (List.nodup_cons.mpr ⟨hunposted, h.posts⟩)
  · rw [map_callId_move]
    rcases List.mem_append.mp hp with hp | hp
    · exact h.known p hp
    · obtain rfl := List.mem_singleton.mp hp
      exact List.mem_append_left _ (List.mem_map_of_mem hcall)
  · rcases h.mem_move hcall hc with rfl | ⟨hc, hne⟩
    · exact ⟨node, t0, rfl⟩
    · refine h.unsent c hc ?_
      rw [List.map_append, List.mem_append] at hp
      exact hp.resolve_right fun hp => hne (List.mem_singleton.mp hp)
  · rcases h.mem_move hcall hc with rfl | ⟨hc, -⟩
    · obtain ⟨rfl, -⟩ := RoutePoint.waiting.inj heq
      exact ⟨.inFlight, List.mem_append_right _ (List.mem_singleton_self _)⟩
    · obtain ⟨state, hp⟩ := h.sent c hc node' t0' heq
      exact ⟨state, List.mem_append_left _ hp⟩

theorem Ids.answer (h : s.Ids) (hcall : call ∈ s.calls) (a : RouterAnswer K) :
    (s.answer call a).Ids := by
  have hperm : ((s.answer call a).calls.map RouterCall.callId ++
      (s.answer call a).answers.map RouterAnswered.callId).Perm
      (s.calls.map RouterCall.callId ++ s.answers.map RouterAnswered.callId) := by
    rw [Deployment.answer, List.map_append]
    exact Server.map_filter_ne_append_perm RouterCall.callId hcall (List.nodup_append.mp h.once).1 _
  refine ⟨hperm.nodup_iff.mpr h.once, h.posts, fun p hp => hperm.mem_iff.mpr (h.known p hp),
    fun c hc => h.unsent c (List.mem_of_mem_filter hc),
    fun c hc => h.sent c (List.mem_of_mem_filter hc)⟩

@[simp] theorem map_callId_settle (s : Deployment K) (callId : ℕ) (state : PostState) :
    (s.settle callId state).posts.map Post.callId = s.posts.map Post.callId := by
  rw [settle, List.map_map]
  refine List.map_congr_left fun p _ => ?_
  simp only [Function.comp_apply]
  split_ifs <;> rfl

theorem Ids.settle (h : s.Ids) (callId : ℕ) (state : PostState) : (s.settle callId state).Ids := by
  refine ⟨h.once, by simpa using h.posts, fun p hp => ?_, fun c hc hp => ?_,
    fun c hc node t0 heq => ?_⟩
  · obtain ⟨q, hq, rfl⟩ := List.mem_map.mp hp
    split_ifs <;> exact h.known q hq
  · exact h.unsent c hc (by simpa using hp)
  · obtain ⟨state', hp⟩ := h.sent c hc node t0 heq
    by_cases hid : c.callId = callId
    · exact ⟨state, List.mem_map.mpr ⟨_, hp, if_pos hid⟩⟩
    · exact ⟨state', List.mem_map.mpr ⟨_, hp, if_neg hid⟩⟩

theorem Ids.mem_settle (h : s.Ids) {post : Post K} (hpost : post ∈ s.posts) {state : PostState}
    {p : Post K} (hp : p ∈ (s.settle post.callId state).posts) :
    p = { post with state } ∨ p ∈ s.posts := by
  obtain ⟨q, hq, rfl⟩ := List.mem_map.mp hp
  by_cases hid : q.callId = post.callId
  · obtain rfl := h.post_unique hq hpost hid
    exact .inl (if_pos rfl)
  · rw [if_neg hid]
    exact .inr hq

theorem Ids.settled (h : s.Ids) {post : Post K} (hpost : post ∈ s.posts)
    (hst : post.state = .inFlight) {p : Post K} (hp : p ∈ s.posts) {ref : ℕ}
    (hacc : p.state = .accepted ref) (state : PostState) :
    p ∈ (s.settle post.callId state).posts := by
  refine List.mem_map.mpr ⟨p, hp, if_neg fun heq => ?_⟩
  rw [h.post_unique hp hpost heq, hst] at hacc
  cases hacc

end Ids

variable {s s' : Deployment K} {e : DeploymentEvent K}

theorem Ids.step (h : s.Ids) (hfresh : s.fresh e = true) (hs : Stepped digest errorText s e s') :
    s'.Ids := by
  cases hs with
  | routed | worked => exact ⟨h.once, h.posts, h.known, h.unsent, h.sent⟩
  | @called callId =>
    obtain ⟨hcalls, hanswers⟩ := of_decide_eq_true hfresh
    have hnew : callId ∉ s.calls.map RouterCall.callId ++ s.answers.map RouterAnswered.callId :=
      fun hm => (List.mem_append.mp hm).elim hcalls hanswers
    refine ⟨List.nodup_cons.mpr ⟨hnew, h.once⟩, h.posts,
      fun p hp => List.mem_cons_of_mem _ (h.known p hp), fun c hc hm => ?_, fun c hc => ?_⟩
    · rcases List.mem_cons.mp hc with rfl | hc
      · obtain ⟨p, hp, heq⟩ := List.mem_map.mp hm
        have heq : p.callId = callId := heq
        exact absurd (heq ▸ h.known p hp) hnew
      · exact h.unsent c hc hm
    · rcases List.mem_cons.mp hc with rfl | hc
      · exact fun node t0 heq => by cases heq
      · exact h.sent c hc
  | @keyError callId =>
    obtain ⟨hcalls, hanswers⟩ := of_decide_eq_true hfresh
    have hnew : callId ∉ s.calls.map RouterCall.callId ++ s.answers.map RouterAnswered.callId :=
      fun hm => (List.mem_append.mp hm).elim hcalls hanswers
    refine ⟨?_, h.posts, fun p hp => ?_, h.unsent, h.sent⟩
    · rw [List.map_append, ← List.append_assoc]
      exact (List.perm_append_singleton _ _).nodup_iff.mpr (List.nodup_cons.mpr ⟨hnew, h.once⟩)
    · rw [List.map_append, ← List.append_assoc]
      exact List.mem_append_left _ (h.known p hp)
  | noneLeft hcall | received hcall | rejected hcall | unreachable hcall | timedOut hcall =>
    exact h.answer hcall _
  | chosen hcall hp | passed hcall hp =>
    exact h.move hcall (fun _ _ heq => by rw [hp] at heq; cases heq) (fun _ _ heq => by cases heq)
  | posted hcall hp => exact h.post hcall hp
  | @delivered post body ref =>
    have h' := h.settle post.callId (.accepted ref)
    exact ⟨h'.once, h'.posts, h'.known, h'.unsent, h'.sent⟩
  | unprocessable => exact h.settle _ _

end Deployment
end InferenceCluster
