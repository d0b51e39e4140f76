import InferenceCluster.Spec.Api
import InferenceCluster.Sanity.Scheduler
import Mathlib.Data.List.Pairwise

/-! What the scheduler's sections leave in place, and what a `/generate` call knows about its
request. Accepted, rejected, served and resolved requests stay so, and a request goes on from
`submit` to the heap to a batch and never back. -/

namespace InferenceCluster

variable {K : Type}

namespace SchedulerSystem

structure Forward (e : SchedulerEvent K) (s s' : SchedulerSystem K) : Prop where
  accepted : s.history.accepted <+: s'.history.accepted
  rejected : s.history.rejected <+: s'.history.rejected
  served : s.history.served <+: s'.history.served
  resolutions : s.history.resolutions <+: s'.history.resolutions
  submitting : ∀ req ∈ s'.submitting, req ∈ s.submitting ∨ req.ref ∉ s.history.accepted
  heap : ∀ req ∈ s'.scheduler.queue.heap, req ∈ s.scheduler.queue.heap ∨ req ∈ s.submitting
  submitted : ∀ ref ∈ s'.submitted, ref ∈ s.submitted ∨ ∃ now req, e = .submit now req ∧ req.ref = ref

theorem Forward.of_heap {e : SchedulerEvent K} {s s' : SchedulerSystem K}
    (hhist : s'.history = s.history) (hsub : s'.submitting = s.submitting)
    (hheap : ∀ req ∈ s'.scheduler.queue.heap,
      req ∈ s.scheduler.queue.heap ∨ req ∈ s.submitting) : Forward e s s' := by
  refine ⟨?_, ?_, ?_, ?_, fun req hr => .inl (hsub ▸ hr), hheap, ?_⟩
  · rw [hhist]
  · rw [hhist]
  · rw [hhist]
  · rw [hhist]
  · intro ref hr
    rw [SchedulerSystem.submitted, hhist] at hr
    exact .inl hr

variable [LinearOrder K]

theorem Forward.popStep (e : SchedulerEvent K) (s : SchedulerSystem K) (expired : Bool)
    (cont : Option (Request K) → WorkerPoint K) : Forward e s (s.popStep expired cont) := by
  unfold SchedulerSystem.popStep
  split
  · rename_i r q hp
    refine Forward.of_heap rfl rfl fun req hr => .inl ?_
    rcases r with _ | first
    · obtain ⟨rfl, -⟩ := PriorityQueue.pop_timeout hp
      exact hr
    · exact (PriorityQueue.pop_some hp).mem_iff.mpr (List.mem_cons_of_mem _ hr)
  · exact Forward.of_heap rfl rfl fun _ => .inl

omit [LinearOrder K] in
theorem Forward.resolveStep (e : SchedulerEvent K) (s : SchedulerSystem K) (req : Request K)
    (o : Outcome) (done : WorkerPoint K) (raised : PyException → WorkerPoint K) :
    Forward e s (s.resolveStep req o done raised) := by
  unfold SchedulerSystem.resolveStep
  split
  · exact ⟨List.prefix_rfl, List.prefix_rfl, List.prefix_rfl, List.prefix_append _ _,
      fun _ => .inl, fun _ => .inl, fun _ => .inl⟩
  · exact Forward.of_heap rfl rfl fun _ => .inl

variable [Field K]

theorem Forward.workerStep {s s' : SchedulerSystem K} {a : WorkerAction K}
    (hs : WorkerStepped s a s') : Forward (.worker a) s s' := by
  cases hs with
  | started | checkedRunning | checkedFull | delivered | failed =>
    exact Forward.of_heap rfl rfl fun _ => .inl
  | poppedFirst | poppedMore => exact Forward.popStep ..
  | delivering | failing => exact Forward.resolveStep ..
  | ran =>
    exact ⟨List.prefix_rfl, List.prefix_rfl, List.prefix_append _ _, List.prefix_rfl,
      fun _ => .inl, fun _ => .inl, fun _ => .inl⟩
  | accounted =>
    refine ⟨List.prefix_rfl, List.prefix_rfl, List.prefix_rfl, List.prefix_rfl,
      fun _ => .inl, fun req hr => .inl ?_, fun _ => .inl⟩
    simpa using hr

theorem forward_step {s s' : SchedulerSystem K} {e : SchedulerEvent K}
    (hok : s.allowed e = true) (hs : s.step e = some s') : Forward e s s' := by
  cases e with
  | submit now req =>
    obtain rfl := Option.some.inj hs
    have hnew : req.ref ∉ s.submitted := of_decide_eq_true hok
    simp only [SchedulerSystem.submit]
    split_ifs
    · refine ⟨List.prefix_append _ _, List.prefix_rfl, List.prefix_rfl, List.prefix_rfl, ?_,
        fun _ => .inl, ?_⟩
      · intro r hr
        rcases List.mem_cons.mp hr with rfl | hr
        · exact .inr fun h => hnew (List.mem_append_left _ h)
        · exact .inl hr
      · intro ref hr
        simp only [SchedulerSystem.submitted, List.mem_append, List.mem_singleton] at hr ⊢
        rcases hr with (hr | rfl) | hr
        · exact .inl (.inl hr)
        · exact .inr ⟨now, req, rfl, rfl⟩
        · exact .inl (.inr hr)
    · refine ⟨List.prefix_rfl, List.prefix_append _ _, List.prefix_rfl, List.prefix_rfl,
        fun _ => .inl, fun _ => .inl, ?_⟩
      intro ref hr
      simp only [SchedulerSystem.submitted, List.map_append, List.map_cons, List.map_nil,
        List.mem_append, List.mem_singleton] at hr ⊢
      rcases hr with hr | hr | rfl
      · exact .inl (.inl hr)
      · exact .inl (.inr hr)
      · exact .inr ⟨now, req, rfl, rfl⟩
  | push req =>
    simp only [SchedulerSystem.step, SchedulerSystem.push] at hs
    split_ifs at hs with hmem
    obtain rfl := Option.some.inj hs
    refine ⟨List.prefix_rfl, List.prefix_rfl, List.prefix_rfl, List.prefix_rfl,
      fun r hr => .inl (List.mem_of_mem_erase hr), fun r hr => ?_, fun _ => .inl⟩
    rcases List.mem_cons.mp ((PriorityQueue.push_perm _ req).mem_iff.mp hr) with rfl | hr
    · exact .inr hmem
    · exact .inl hr
  | cancel ref => cases hok
  | stop => exact Option.some.inj hs ▸ Forward.of_heap rfl rfl fun _ => .inl
  | worker a => exact Forward.workerStep (workerStepped hs)

namespace Books

omit [LinearOrder K] [Field K]
variable {m : ℕ} {s : SchedulerSystem K}

theorem accepted_of_served (h : s.Books m)
    {b : List (Request K) × Except PyException (List BatchResult)} (hb : b ∈ s.history.served)
    {ref : ℕ} (hr : ref ∈ b.1.map Request.ref) : ref ∈ s.history.accepted := by
  have hpos := List.count_pos_iff.mpr (List.mem_flatMap.mpr ⟨b, hb, hr⟩ :
    ref ∈ s.history.served.flatMap fun b => b.1.map Request.ref)
  have hplaces := h.places ref
  have hle := unresolved_count_le s ref
  rw [h.served] at hpos
  apply List.count_pos_iff.mp
  omega

/-- A request is in one batch only. -/
theorem batch_unique (h : s.Books m) {b b' : List (Request K) × Except PyException (List BatchResult)}
    (hb : b ∈ s.history.served) (hb' : b' ∈ s.history.served) {ref : ℕ}
    (hr : ref ∈ b.1.map Request.ref) (hr' : ref ∈ b'.1.map Request.ref) : b = b' := by
  by_contra hne
  have hdisj := (List.nodup_flatMap.mp h.served_nodup).2
  have hsymm : Std.Symm (Function.onFun List.Disjoint
      fun b : List (Request K) × Except PyException (List BatchResult) => b.1.map Request.ref) :=
    ⟨fun _ _ hd _ hx hy => hd hy hx⟩
  exact hdisj.forall hb hb' hne hr hr'

/-- The future of an accepted request is pending or holds the request's own outcome. -/
theorem future_of_accepted (h : s.Books m) {ref : ℕ} (hr : ref ∈ s.history.accepted) :
    s.futures ref = some .pending ∨
      ∃ o, s.futures ref = some (.finished o) ∧ OwnOutcome s.history.served ref o := by
  by_cases hres : ref ∈ s.refsAt .resolved
  · obtain ⟨r, hm, rfl⟩ := List.mem_map.mp hres
    exact .inr ⟨r.2, h.finished r hm⟩
  · exact .inl (h.pending ref hr hres)

end Books

end SchedulerSystem

namespace Server

open SchedulerSystem

/-- The element under a key moves to the end of the other list. -/
theorem map_filter_ne_append_perm {α : Type} (f : α → ℕ) {l : List α} {x : α} (hx : x ∈ l)
    (hnd : (l.map f).Nodup) (ks : List ℕ) :
    ((l.filter (f · ≠ f x)).map f ++ (ks ++ [f x])).Perm (l.map f ++ ks) := by
  have herase : (l.filter (f · ≠ f x)).map f = (l.map f).erase (f x) := by
    rw [hnd.erase_eq_filter, List.filter_map]
    exact congrArg _ (List.filter_congr fun y _ => by simp [bne, beq_eq_decide])
  rw [herase, ← List.append_assoc]
  refine (List.perm_append_singleton _ _).trans ?_
  rw [← List.cons_append]
  exact (List.perm_cons_erase (List.mem_map_of_mem hx)).symm.append_right ks

variable [Field K] [LinearOrder K] [FloorRing K]

omit [Field K] [LinearOrder K] [FloorRing K] in
/-- A call submits a new request. -/
theorem allowed_submit {s : Server K} {body : GenerateRequest K} {ref : ℕ} {requestId : String}
    {arrivalTime t0 now : K} (hok : s.allowed (.generate body ref requestId arrivalTime t0 now) = true) :
    s.allowed (.scheduler (.submit now (body.request ref requestId arrivalTime))) = true := by
  obtain ⟨hnew, hans⟩ := of_decide_eq_true hok
  exact Bool.and_eq_true_iff.mpr ⟨decide_eq_true hnew, decide_eq_true hans⟩

/-- The steps, one constructor for each section and outcome. -/
inductive Stepped (s : Server K) : ServerEvent K → Server K → Prop
  | submitted {body : GenerateRequest K} {ref : ℕ} {requestId : String} {arrivalTime t0 now : K} :
      Stepped s (.generate body ref requestId arrivalTime t0 now) { s with
        system := s.system.submit now (body.request ref requestId arrivalTime)
        calls := ⟨ref, requestId, t0, s.rejection now⟩ :: s.calls }
  | notRunning {body : GenerateRequest K} {ref : ℕ} {requestId : String} {arrivalTime t0 now : K} :
      Stepped s (.generate body ref requestId arrivalTime t0 now)
        { s with answers := s.answers ++ [⟨ref, .notRunning, .http schedulerNotRunning⟩] }
  | finished {ref : ℕ} {now : K} {call : Call K} {o : Outcome} (hcall : call ∈ s.calls)
      (hf : s.future call = some (.finished o)) :
      Stepped s (.result ref now) (s.finish call now (.done o) (Outcome.result o))
  | cancelled {ref : ℕ} {now : K} {call : Call K} (hcall : call ∈ s.calls)
      (hf : s.future call = some .cancelled) :
      Stepped s (.result ref now)
        (s.finish call now (.done (.error cancelledError)) (.error cancelledError))
  | timedOut {ref : ℕ} {call : Call K} (hcall : call ∈ s.calls)
      (hf : s.future call = some .pending) :
      Stepped s (.timeout ref) (s.finish call call.t0 .timedOut (.error timeoutError))
  | drainCalled (hd : s.drain = .notCalled) :
      Stepped s .drain { s with
        drain := if s.running then .polling else .returned (.error schedulerNotRunning)
        pushedBefore := s.pushed }
  | polled {expired : Bool} (hd : s.drain = .polling) :
      Stepped s (.poll expired) { s with
        drain :=
          if s.system.scheduler.queue.size = 0 then .empty
          else if expired then .expired else .polling }
  | drained (hd : s.drain = .empty) :
      Stepped s .drainReturn { s with drain := .returned (.ok ⟨true, 0⟩) }
  | expired (hd : s.drain = .expired) :
      Stepped s .drainReturn
        { s with drain := .returned (.ok ⟨false, s.system.scheduler.queue.size⟩) }
  | cleared : Stepped s .clearState { s with running := false }
  | scheduled {e : SchedulerEvent K} {system : SchedulerSystem K}
      (hsys : s.system.step e = some system) : Stepped s (.scheduler e) { s with system }

theorem stepped {s s' : Server K} {e : ServerEvent K} (h : s.step e = some s') :
    Stepped s e s' := by
  cases e with
  | generate body ref requestId arrivalTime t0 now =>
    obtain rfl := Option.some.inj h
    unfold Server.generate
    split_ifs
    · exact .submitted
    · exact .notRunning
  | result ref now =>
    obtain ⟨call, hfind, hcall⟩ := Option.bind_eq_some_iff.mp h
    have hmem := List.mem_of_find?_eq_some hfind
    split at hcall
    · rename_i hf
      obtain rfl := Option.some.inj hcall
      exact .finished hmem hf
    · rename_i hf
      obtain rfl := Option.some.inj hcall
      exact .cancelled hmem hf
    · cases hcall
  | timeout ref =>
    obtain ⟨call, hfind, hcall⟩ := Option.bind_eq_some_iff.mp h
    split_ifs at hcall
    split at hcall
    · rename_i hf
      obtain rfl := Option.some.inj hcall
      exact .timedOut (List.mem_of_find?_eq_some hfind) hf
    · cases hcall
  | drain =>
    simp only [Server.step, Server.drainCall] at h
    split at h
    · rename_i hd
      exact Option.some.inj h ▸ .drainCalled hd
    · cases h
  | poll expired =>
    simp only [Server.step, Server.poll] at h
    split at h
    · rename_i hd
      exact Option.some.inj h ▸ .polled hd
    · cases h
  | drainReturn =>
    simp only [Server.step, Server.drainReturn] at h
    split at h
    · rename_i hd
      exact Option.some.inj h ▸ .drained hd
    · rename_i hd
      exact Option.some.inj h ▸ .expired hd
    · cases h
  | clearState => exact Option.some.inj h ▸ .cleared
  | scheduler e =>
    obtain ⟨system, hsys, rfl⟩ := Option.map_eq_some_iff.mp h
    exact .scheduled hsys

/-- A step of the server is a step of its scheduler or leaves the scheduler alone. -/
theorem system_step {s s' : Server K} {e : ServerEvent K} (hok : s.allowed e = true)
    (hs : Stepped s e s') :
    s'.system = s.system ∨
      ∃ e', s.allowed (.scheduler e') = true ∧ s.system.step e' = some s'.system := by
  cases hs with
  | submitted => exact .inr ⟨_, allowed_submit hok, rfl⟩
  | scheduled hsys => exact .inr ⟨_, hok, hsys⟩
  | _ => exact .inl rfl

omit [Field K] [LinearOrder K] [FloorRing K] in
theorem allowed_system {s : Server K} {e : SchedulerEvent K}
    (hok : s.allowed (.scheduler e) = true) : s.system.allowed e = true :=
  (Bool.and_eq_true_iff.mp hok).1

theorem books_of_run {maxBatchSize : ℕ} (hmax : 1 ≤ maxBatchSize) {rate burst now : K}
    {events : List (ServerEvent K)} {s : Server K}
    (h : (machine maxBatchSize rate burst now).Run events s)
    (hok : (machine maxBatchSize rate burst now).Meets (fun s e => s.allowed e) events) :
    s.system.Books maxBatchSize := by
  refine Machine.Run.invariant_of_meets (I := fun _ s => s.system.Books maxBatchSize)
    (Books.init maxBatchSize rate burst now) ?_ h hok
  intro events s e s' _ hbooks hok hs
  rcases system_step hok (stepped hs) with heq | ⟨e', hok', hs'⟩
  · rwa [heq]
  · exact hbooks.step hmax (allowed_system hok') hs'

end Server
end InferenceCluster
