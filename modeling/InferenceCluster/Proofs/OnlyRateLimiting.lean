import InferenceCluster.Sanity.Api
import Mathlib.Algebra.Order.Field.Rat
import Mathlib.Data.Rat.Floor

/-! Which status a `/generate` call is answered with. The endpoint tells the rate limiter's
rejection from a failed batch by the class of the exception alone. -/

namespace InferenceCluster

variable {K : Type}

namespace SchedulerSystem

/-- The batch that the request was in failed with `e`. -/
def FailedWith (s : SchedulerSystem K) (ref : ℕ) (e : PyException) : Prop :=
  ∃ b ∈ s.history.served, b.2 = .error e ∧ ref ∈ b.1.map Request.ref

def wasRejected (s : SchedulerSystem K) (ref : ℕ) : Prop := ref ∈ s.history.rejected.map Prod.fst

theorem failedWith_of_ownOutcome {s : SchedulerSystem K} {ref : ℕ} {e : PyException}
    (h : OwnOutcome s.history.served ref (.error e)) : s.FailedWith ref e := by
  obtain ⟨b, hb, i, hi, ho⟩ := h
  obtain ⟨req, hreq, rfl⟩ := Option.map_eq_some_iff.mp hi
  refine ⟨b, hb, ?_, List.mem_map_of_mem (List.mem_of_getElem? hreq)⟩
  rcases hr : b.2 with e' | results
  · rw [hr] at ho
    exact congrArg _ (Except.error.inj (Option.some.inj ho))
  · rw [hr] at ho
    obtain ⟨r, -, h⟩ := Option.map_eq_some_iff.mp ho
    cases h

namespace Books

variable {m : ℕ} {s : SchedulerSystem K}

theorem failedWith_unique (h : s.Books m) {ref : ℕ} {e : PyException} {o : Outcome}
    (hf : s.FailedWith ref e) (ho : OwnOutcome s.history.served ref o) : o = .error e := by
  obtain ⟨b, hb, he, hr⟩ := hf
  obtain ⟨b', hb', i, hi, ho⟩ := ho
  obtain ⟨req, hreq, rfl⟩ := Option.map_eq_some_iff.mp hi
  obtain rfl := h.batch_unique hb hb' hr (List.mem_map_of_mem (List.mem_of_getElem? hreq))
  rw [he] at ho
  exact (Option.some.inj ho).symm

theorem accepted_of_failedWith (h : s.Books m) {ref : ℕ} {e : PyException}
    (hf : s.FailedWith ref e) : ref ∈ s.history.accepted := by
  obtain ⟨b, hb, -, hr⟩ := hf
  exact h.accepted_of_served hb hr

theorem not_rejected (h : s.Books m) {ref : ℕ} (hr : ref ∈ s.history.accepted) :
    ¬s.wasRejected ref :=
  fun hrej => List.disjoint_of_nodup_append h.distinct hr hrej

end Books
end SchedulerSystem

variable [Field K] [LinearOrder K] [FloorRing K]

namespace Server

open SchedulerSystem

/-- The four ways to an answer. -/
inductive Explained (s : SchedulerSystem K) : Answered K → Prop
  | notRunning {ref : ℕ} : ref ∉ s.submitted →
      Explained s ⟨ref, .notRunning, .http schedulerNotRunning⟩
  | rejected {ref : ℕ} (requestId : String) (elapsed : K) : s.wasRejected ref →
      Explained s ⟨ref, .done (.error rateLimitExceeded),
        generateAnswer requestId elapsed (.error rateLimitExceeded)⟩
  | timedOut {ref : ℕ} (requestId : String) (elapsed : K) : ref ∈ s.history.accepted →
      Explained s ⟨ref, .timedOut, generateAnswer requestId elapsed (.error timeoutError)⟩
  | served {ref : ℕ} (requestId : String) (elapsed : K) {o : Outcome} :
      ref ∈ s.history.accepted → OwnOutcome s.history.served ref o →
      Explained s ⟨ref, .done o, generateAnswer requestId elapsed (Outcome.result o)⟩

/-- What a waiting call knows of its request. -/
inductive Waiting (s : SchedulerSystem K) : Call K → Prop
  | accepted {call : Call K} : call.future = none → call.ref ∈ s.history.accepted → Waiting s call
  | rejected {call : Call K} : call.future = some (.finished (.error rateLimitExceeded)) →
      s.wasRejected call.ref → Waiting s call

structure Known (s : Server K) : Prop where
  waiting : ∀ call ∈ s.calls, Waiting s.system call
  explained : ∀ a ∈ s.answers, Explained s.system a

omit [Field K] [LinearOrder K] [FloorRing K] in
theorem Waiting.forward {s s' : SchedulerSystem K} {e : SchedulerEvent K} {call : Call K}
    (h : Waiting s call) (hf : Forward e s s') : Waiting s' call := by
  cases h with
  | accepted hnone hacc => exact .accepted hnone (hf.accepted.subset hacc)
  | rejected hsome hrej => exact .rejected hsome ((hf.rejected.map Prod.fst).subset hrej)

theorem Explained.forward {s s' : SchedulerSystem K} {e : SchedulerEvent K} {a : Answered K}
    (h : Explained s a) (hf : Forward e s s') (hnew : ∀ now req, e = .submit now req → req.ref ≠ a.ref) :
    Explained s' a := by
  cases h with
  | notRunning hsub =>
    refine .notRunning fun hs' => ?_
    rcases hf.submitted _ hs' with hs | ⟨now, req, he, href⟩
    · exact hsub hs
    · exact hnew now req he href
  | rejected requestId elapsed hrej =>
    exact .rejected requestId elapsed ((hf.rejected.map Prod.fst).subset hrej)
  | timedOut requestId elapsed hacc => exact .timedOut requestId elapsed (hf.accepted.subset hacc)
  | served requestId elapsed hacc ho =>
    obtain ⟨b, hb, hi⟩ := ho
    exact .served requestId elapsed (hf.accepted.subset hacc) ⟨b, hf.served.subset hb, hi⟩

/-- The scheduler's part of a step. -/
theorem Known.system {s : Server K} (h : s.Known) {system : SchedulerSystem K}
    {e : SchedulerEvent K} (hok : s.allowed (.scheduler e) = true)
    (hs : s.system.step e = some system) : ({ s with system } : Server K).Known := by
  have hf := forward_step (allowed_system hok) hs
  refine ⟨fun call hc => (h.waiting call hc).forward hf, fun a ha => ?_⟩
  refine (h.explained a ha).forward hf ?_
  rintro now req rfl href
  exact of_decide_eq_true (Bool.and_eq_true_iff.mp hok).2 (href ▸ List.mem_map_of_mem ha)

/-- A call gets its answer. -/
theorem Known.reply {s : Server K} (h : s.Known) {call : Call K} {r : Reply} {answer : Answer K}
    (hex : Explained s.system ⟨call.ref, r, answer⟩) : (s.reply call r answer).Known := by
  refine ⟨fun c hc => h.waiting c (List.mem_of_mem_filter hc), fun a ha => ?_⟩
  rcases List.mem_append.mp ha with ha | ha
  · exact h.explained a ha
  · obtain rfl := List.mem_singleton.mp ha
    exact hex

theorem Known.submitted {s : Server K} (h : s.Known) {body : GenerateRequest K} {ref : ℕ}
    {requestId : String} {arrivalTime t0 now : K}
    (hok : s.allowed (.generate body ref requestId arrivalTime t0 now) = true) :
    Known { s with
      system := s.system.submit now (body.request ref requestId arrivalTime)
      calls := ⟨ref, requestId, t0, s.rejection now⟩ :: s.calls } := by
  have h' := h.system (allowed_submit hok) rfl
  refine ⟨fun call hc => ?_, h'.explained⟩
  rcases List.mem_cons.mp hc with rfl | hc
  · simp only [rejection, SchedulerSystem.submit]
    split_ifs
    · exact .accepted rfl (List.mem_append_right _ (List.mem_singleton_self _))
    · refine .rejected rfl ?_
      simp only [wasRejected, List.map_append, List.mem_append]
      exact .inr (List.mem_singleton_self _)
  · exact h'.waiting call hc

/-- A call whose future is done gets what the future holds. -/
theorem Known.finished {s : Server K} {m : ℕ} (hb : s.system.Books m) (h : s.Known)
    {call : Call K} (hcall : call ∈ s.calls) {o : Outcome}
    (hf : s.future call = some (.finished o)) (now : K) :
    (s.finish call now (.done o) (Outcome.result o)).Known := by
  apply h.reply
  cases h.waiting call hcall with
  | accepted hnone hacc =>
    simp only [Server.future, hnone] at hf
    rcases hb.future_of_accepted hacc with hp | ⟨o', ho, hown⟩
    · rw [hp] at hf
      cases hf
    · obtain rfl := Future.finished.inj (Option.some.inj (ho.symm.trans hf))
      exact .served _ _ hacc hown
  | rejected hsome hrej =>
    simp only [Server.future, hsome] at hf
    obtain rfl := Future.finished.inj (Option.some.inj hf)
    exact .rejected _ _ hrej

/-- No future is cancelled. -/
theorem Known.not_cancelled {s : Server K} {m : ℕ} (hb : s.system.Books m) (h : s.Known)
    {call : Call K} (hcall : call ∈ s.calls) : s.future call ≠ some .cancelled := by
  intro hf
  cases h.waiting call hcall with
  | accepted hnone hacc =>
    simp only [Server.future, hnone] at hf
    rcases hb.future_of_accepted hacc with hp | ⟨o, ho, -⟩
    · rw [hp] at hf
      cases hf
    · rw [ho] at hf
      cases hf
  | rejected hsome hrej =>
    simp only [Server.future, hsome] at hf
    cases hf

theorem Known.timedOut {s : Server K} (h : s.Known) {call : Call K} (hcall : call ∈ s.calls)
    (hf : s.future call = some .pending) :
    (s.finish call call.t0 .timedOut (.error timeoutError)).Known := by
  apply h.reply
  cases h.waiting call hcall with
  | accepted hnone hacc => exact .timedOut _ _ hacc
  | rejected hsome hrej =>
    simp only [Server.future, hsome] at hf
    cases hf

theorem Known.step {s s' : Server K} {m : ℕ} (hb : s.system.Books m) (h : s.Known)
    {e : ServerEvent K} (hok : s.allowed e = true) (hs : Stepped s e s') : s'.Known := by
  cases hs with
  | submitted => exact h.submitted hok
  | notRunning =>
    refine ⟨h.waiting, fun a ha => ?_⟩
    rcases List.mem_append.mp ha with ha | ha
    · exact h.explained a ha
    · obtain rfl := List.mem_singleton.mp ha
      exact .notRunning (of_decide_eq_true hok).1
  | finished hcall hf => exact h.finished hb hcall hf _
  | cancelled hcall hf => exact absurd hf (h.not_cancelled hb hcall)
  | timedOut hcall hf => exact h.timedOut hcall hf
  | drainCalled | polled | drained | expired | cleared => exact ⟨h.waiting, h.explained⟩
  | scheduled hsys => exact h.system hok hsys

theorem known_of_run {maxBatchSize : ℕ} (hmax : 1 ≤ maxBatchSize) {rate burst now : K}
    {events : List (ServerEvent K)} {s : Server K}
    (h : (machine maxBatchSize rate burst now).Run events s)
    (hok : (machine maxBatchSize rate burst now).Meets (fun s e => s.allowed e) events) :
    s.Known := by
  induction h with
  | nil => constructor <;> simp [machine, SchedulerSystem.machine]
  | snoc hr hs ih =>
    have hbefore := hok.mono (List.prefix_append _ _)
    exact (ih hbefore).step (books_of_run hmax hr hbefore) (hok.last hr) (stepped hs)

/-! ### Statuses -/

theorem status_ok (requestId : String) (elapsed : K) (result : Option BatchResult) :
    (generateAnswer requestId elapsed (.ok result)).status = 200 ∨
      (generateAnswer requestId elapsed (.ok result)).status = 500 := by
  rcases result with _ | result
  · exact .inr rfl
  simp only [generateAnswer]
  split_ifs
  · exact .inr rfl
  · exact .inl rfl

theorem status_error (requestId : String) (elapsed : K) (e : PyException) :
    (generateAnswer requestId elapsed (.error e)).status =
      if e.isInstance "RuntimeError" then 429 else 500 := by
  simp only [generateAnswer]
  split_ifs <;> rfl

omit [Field K] [LinearOrder K] [FloorRing K] in
/-- 429 is for rejected requests and for them only, and a failed batch is a 500. -/
def Lawful (s : Server K) (a : Answered K) : Prop :=
  (a.answer.status = 429 ↔ s.system.wasRejected a.ref) ∧
    ∀ e, s.system.FailedWith a.ref e → a.answer.status = 500

/-- The exception of a batch, as the call gets to see it: one that is false as a condition is
not raised, and the call stumbles over the missing result. -/
theorem status_failed (requestId : String) (elapsed : K) (e : PyException) :
    (generateAnswer requestId elapsed (Outcome.result (.error e))).status =
      if e.isInstance "RuntimeError" = true ∧ e.truth = true then 429 else 500 := by
  cases ht : e.truth with
  | true =>
    simp only [Outcome.result, ht, and_true]
    exact status_error requestId elapsed e
  | false => simp [Outcome.result, ht, generateAnswer, Answer.status]

/-- The batch of the request failed with a `RuntimeError` that is true as a condition, before the
call gave up on it. -/
def Misread (s : Server K) (a : Answered K) : Prop :=
  a.reply ≠ .timedOut ∧
    ∃ e, s.system.FailedWith a.ref e ∧ e.isInstance "RuntimeError" = true ∧ e.truth = true

omit [Field K] [LinearOrder K] [FloorRing K] in
/-- Where no batch has failed, only the 429 is at stake. -/
theorem lawful_of_unfailed {s : Server K} {a : Answered K}
    (hfail : ∀ e, ¬s.system.FailedWith a.ref e)
    (h : a.answer.status = 429 ↔ s.system.wasRejected a.ref) : Lawful s a ↔ ¬Misread s a := by
  refine iff_of_true ⟨h, fun e he => absurd he (hfail e)⟩ ?_
  rintro ⟨-, e, he, -⟩
  exact hfail e he

/-- The batch of a served call has failed: its exception decides. -/
theorem lawful_of_failed {m : ℕ} {s : Server K} (hb : s.system.Books m) {ref : ℕ}
    (hacc : ref ∈ s.system.history.accepted) {e : PyException}
    (hown : OwnOutcome s.system.history.served ref (.error e)) (requestId : String) (elapsed : K) :
    let a : Answered K :=
      ⟨ref, .done (.error e), generateAnswer requestId elapsed (Outcome.result (.error e))⟩
    Lawful s a ↔ ¬Misread s a := by
  intro a
  have hnot : ¬s.system.wasRejected ref := hb.not_rejected hacc
  have hfail := failedWith_of_ownOutcome hown
  have hsame : ∀ e', s.system.FailedWith ref e' → e' = e := fun e' h =>
    (Except.error.inj (hb.failedWith_unique h hown)).symm
  have hstatus : a.answer.status =
      if e.isInstance "RuntimeError" = true ∧ e.truth = true then 429 else 500 :=
    status_failed requestId elapsed e
  by_cases hr : e.isInstance "RuntimeError" = true ∧ e.truth = true
  · rw [if_pos hr] at hstatus
    exact iff_of_false (fun h => hnot (h.1.mp hstatus)) fun h => h ⟨nofun, e, hfail, hr⟩
  · rw [if_neg hr] at hstatus
    refine iff_of_true ⟨iff_of_false ?_ hnot, fun _ _ => hstatus⟩ ?_
    · rw [hstatus]
      decide
    · rintro ⟨-, e', he', hr'⟩
      exact hr (hsame e' he' ▸ hr')

theorem Explained.lawful {m : ℕ} {s : Server K} (hb : s.system.Books m) {a : Answered K}
    (h : Explained s.system a) : Lawful s a ↔ ¬Misread s a := by
  cases h with
  | notRunning hsub =>
    have hrej : ¬s.system.wasRejected _ := fun h => hsub (List.mem_append_right _ h)
    apply lawful_of_unfailed
    · exact fun e h => hsub (List.mem_append_left _ (hb.accepted_of_failedWith h))
    · exact iff_of_false (by decide : ¬(503 : ℕ) = 429) hrej
  | rejected requestId elapsed hrej =>
    apply lawful_of_unfailed
    · exact fun e h => hb.not_rejected (hb.accepted_of_failedWith h) hrej
    · exact iff_of_true (status_error requestId elapsed rateLimitExceeded) hrej
  | timedOut requestId elapsed hacc =>
    have hstatus : (generateAnswer requestId elapsed (.error timeoutError)).status = 500 :=
      status_error _ _ _
    refine iff_of_true ⟨iff_of_false ?_ (hb.not_rejected hacc), fun _ _ => hstatus⟩ fun h => h.1 rfl
    rw [hstatus]
    decide
  | @served ref requestId elapsed o hacc hown =>
    rcases o with e | result
    · exact lawful_of_failed hb hacc hown requestId elapsed
    · apply lawful_of_unfailed
      · intro e h
        cases hb.failedWith_unique h hown
      · refine iff_of_false ?_ (hb.not_rejected hacc)
        rcases status_ok requestId elapsed (some result) with hs | hs <;> rw [Outcome.result, hs] <;>
          decide

/-- In every run, a call is answered as it should be exactly when its batch did not fail with
a `RuntimeError` that is true as a condition, or the call had given up on it. -/
theorem lawful_iff {maxBatchSize : ℕ} (hmax : 1 ≤ maxBatchSize) {rate burst now : K}
    {events : List (ServerEvent K)} {s : Server K}
    (h : (machine maxBatchSize rate burst now).Run events s)
    (hok : (machine maxBatchSize rate burst now).Meets (fun s e => s.allowed e) events)
    {a : Answered K} (ha : a ∈ s.answers) : Lawful s a ↔ ¬Misread s a :=
  ((known_of_run hmax h hok).explained a ha).lawful (books_of_run hmax h hok)

/-- What the model raises where the memory of the GPU is used up. -/
def outOfMemory : PyException :=
  ⟨["OutOfMemoryError", "RuntimeError", "Exception"], "CUDA out of memory", true⟩

/-- One call is served and a second is rejected; the batch of the first ends with `r`. -/
def twoCalls (r : Except PyException (List BatchResult)) : List (ServerEvent ℚ) :=
  let body : GenerateRequest ℚ := { prompt := "hello", temperature := 1, topP := 1 }
  let request := body.request 1 "a" 0
  [.scheduler (.worker .start), .generate body 1 "a" 0 0 0, .generate body 2 "b" 0 0 0,
    .scheduler (.push request), .scheduler (.worker .checkRunning),
    .scheduler (.worker (.popFirst false)), .scheduler (.worker (.checkFull true)),
    .scheduler (.worker (.runBatch r)), .scheduler (.worker .resolve), .result 1 1, .result 2 1]

theorem lawful_iff_twoCalls : ∃ s, (machine 8 0 1 0).Run (twoCalls (.ok [⟨"a", 1, 1⟩])) s ∧
    s.answers.map (fun a => (a.ref, a.answer.status)) = [(1, 200), (2, 429)] ∧
      ∀ a ∈ s.answers, Lawful s a ↔ ¬Misread s a := by
  have hexec : ((machine 8 0 1 0).exec (machine 8 0 1 0).init (twoCalls (.ok [⟨"a", 1, 1⟩]))).map
      (fun s => s.answers.map fun a => (a.ref, a.answer.status)) = some [(1, 200), (2, 429)] := by
    decide +kernel
  obtain ⟨s, hs, hstatus⟩ := Option.map_eq_some_iff.mp hexec
  have hr := (Machine.run_iff_exec _).mpr hs
  have hok : (machine (8 : ℕ) (0 : ℚ) 1 0).Meets (fun s e => s.allowed e)
      (twoCalls (.ok [⟨"a", 1, 1⟩])) := Machine.meets_of_checks _ (by decide +kernel)
  exact ⟨s, hr, hstatus, fun a ha => lawful_iff (by decide) hr hok ha⟩

/-- What a batch failed with. -/
def failure {α : Type} : Except PyException α → Option PyException
  | .ok _ => none
  | .error e => some e

/-- The batch runs out of memory: the call is told that it went over the rate limit. -/
theorem outOfMemory_answered_429 : ∃ s, (machine 8 0 1 0).Run (twoCalls (.error outOfMemory)) s ∧
    ∃ a ∈ s.answers, a.ref = 1 ∧ a.answer = .http ⟨429, "CUDA out of memory"⟩ ∧
      s.system.FailedWith 1 outOfMemory ∧ ¬s.system.wasRejected 1 ∧ ¬Lawful s a := by
  have hexec : ((machine 8 0 1 0).exec (machine 8 0 1 0).init (twoCalls (.error outOfMemory))).map
      (fun s => (s.system.history.served.map fun b => (b.1.map Request.ref, failure b.2),
        s.system.history.rejected.map Prod.fst)) = some ([([1], some outOfMemory)], [2]) := by
    decide +kernel
  obtain ⟨s, hs, hparts⟩ := Option.map_eq_some_iff.mp hexec
  obtain ⟨hserved, hrej⟩ := Prod.mk.inj hparts
  have hanswers : ((machine 8 0 1 0).exec (machine 8 0 1 0).init (twoCalls (.error outOfMemory))).map
      (fun s => s.answers.map fun a => (a.ref, a.answer)) =
      some [(1, .http ⟨429, "CUDA out of memory"⟩),
        (2, .http ⟨429, "rate limit exceeded - try again shortly"⟩)] := by
    decide +kernel
  rw [hs, Option.map_some, Option.some.injEq] at hanswers
  have hmem : (1, Answer.http ⟨429, "CUDA out of memory"⟩) ∈
      s.answers.map fun a => (a.ref, a.answer) := by
    rw [hanswers]
    exact List.mem_cons_self
  have hbatch : ([1], some outOfMemory) ∈
      s.system.history.served.map fun b => (b.1.map Request.ref, failure b.2) := by
    rw [hserved]
    exact List.mem_singleton_self _
  obtain ⟨a, ha, hpair⟩ := List.mem_map.mp hmem
  obtain ⟨href, hanswer⟩ := Prod.mk.inj hpair
  obtain ⟨b, hb, hpair⟩ := List.mem_map.mp hbatch
  obtain ⟨hrefs, hfailed⟩ := Prod.mk.inj hpair
  have herror : b.2 = .error outOfMemory := by
    rcases hb2 : b.2 with e | results
    · rw [hb2] at hfailed
      exact congrArg _ (Option.some.inj hfailed)
    · rw [hb2] at hfailed
      cases hfailed
  have hnot : ¬s.system.wasRejected 1 := by simp [wasRejected, hrej]
  refine ⟨s, (Machine.run_iff_exec _).mpr hs, a, ha, href, hanswer,
    ⟨b, hb, herror, hrefs ▸ List.mem_singleton_self _⟩, hnot, fun h => hnot ?_⟩
  rw [← href]
  exact h.1.mp (by rw [hanswer]; rfl)

end Server
end InferenceCluster
