import InferenceCluster.Proofs.OnlyRateLimiting
import InferenceCluster.Sanity.Counters
import InferenceCluster.Sanity.RunBatch

/-! Integrity from the call to its answer. Whatever batch a call's request ends up in, the
answer is decoded from the row of the model's output at the index where the input holds the
call's own prompt; and no call is answered twice. -/

namespace InferenceCluster

variable {K : Type}

section Rows

variable (tokenizer : Tokenizer) (generate : Generate K)

/-- The result comes from the output row at index `i` of the model call that is made for the batch;
its input row there begins with the prompt, and the result leaves out the width of the input. -/
def OwnRow (batch : List (Request K)) (prompt : String) (i : ℕ) (result : BatchResult) : Prop :=
  ∃ args out input row, modelArgs tokenizer batch = some args ∧ generate args = .ok out ∧
    args.inputIds[i]? = some input ∧ (tokenizer.encode prompt).inputIds <+: input ∧
      out[i]? = some row ∧ result = batchResult tokenizer input.length (tokenizer.encode prompt) row

variable {tokenizer generate}

theorem rowAt_eq_ok {out : List (List ℕ)} {i : ℕ} {row : List ℕ} :
    rowAt out i = .ok row ↔ out[i]? = some row := by
  unfold rowAt
  cases out[i]? <;> simp

/-- The loop reads row `n + i` for the prompt at index `i`. -/
theorem trimRows_getElem {maxLen n : ℕ} {out : List (List ℕ)} {encodings : List Encoding}
    {results : List BatchResult} (h : trimRows tokenizer maxLen out encodings n = .ok results)
    {i : ℕ} {enc : Encoding} {result : BatchResult} (henc : encodings[i]? = some enc)
    (hres : results[i]? = some result) :
    ∃ row, out[n + i]? = some row ∧ result = batchResult tokenizer maxLen enc row := by
  induction encodings generalizing n results i with
  | nil => simp at henc
  | cons first encodings ih =>
    obtain ⟨row, hrow, h⟩ := exists_of_bind_eq_ok h
    obtain ⟨rest, hrest, h⟩ := exists_of_bind_eq_ok h
    obtain rfl := Except.ok.inj h
    cases i with
    | zero =>
      obtain rfl : first = enc := by simpa using henc
      obtain rfl : batchResult tokenizer maxLen first row = result := by simpa using hres
      exact ⟨row, rowAt_eq_ok.mp hrow, rfl⟩
    | succ i =>
      obtain ⟨row', hrow', heq⟩ := ih hrest (by simpa using henc) (by simpa using hres)
      exact ⟨row', by rwa [Nat.add_assoc, Nat.add_comm 1 i] at hrow', heq⟩

theorem runBatch_ownRow {batch : List (Request K)} {results : List BatchResult}
    (h : runBatch tokenizer generate batch = .ok results) {i : ℕ} {req : Request K}
    {result : BatchResult} (hreq : batch[i]? = some req) (hres : results[i]? = some result) :
    OwnRow tokenizer generate batch req.prompt i result := by
  match batch, h with
  | [], h => cases h
  | [first], h =>
    obtain ⟨out, hout, h⟩ := exists_of_bind_eq_ok h
    obtain ⟨row, hrow, h⟩ := exists_of_bind_eq_ok h
    obtain rfl := Except.ok.inj h
    cases i with
    | zero =>
      obtain rfl : first = req := by simpa using hreq
      obtain rfl : batchResult tokenizer _ _ row = result := by simpa using hres
      exact ⟨_, out, _, row, rfl, hout, rfl, List.prefix_rfl, rowAt_eq_ok.mp hrow, rfl⟩
    | succ i => simp at hreq
  | first :: second :: rest, h =>
    obtain ⟨out, hout, h⟩ := exists_of_bind_eq_ok h
    have henc : ((first :: second :: rest).map fun req => tokenizer.encode req.prompt)[i]? =
        some (tokenizer.encode req.prompt) := by
      rw [List.getElem?_map, hreq]
      rfl
    obtain ⟨row, hrow, rfl⟩ := trimRows_getElem h henc hres
    rw [Nat.zero_add] at hrow
    have hle := length_le_longest (List.mem_of_getElem? henc)
    obtain ⟨maxLen, hmax⟩ : ∃ n, longest ((first :: second :: rest).map
        fun req => tokenizer.encode req.prompt) = n := ⟨_, rfl⟩
    rw [hmax] at hle ⊢
    have hlen : (assignPrefix (List.replicate maxLen tokenizer.padId)
        (tokenizer.encode req.prompt).inputIds).length = maxLen := by
      rw [length_assignPrefix (by simpa using hle), List.length_replicate]
    refine ⟨_, out, assignPrefix (List.replicate maxLen tokenizer.padId)
      (tokenizer.encode req.prompt).inputIds, row, rfl, hout, ?_, List.prefix_append _ _, hrow, ?_⟩
    · rw [paddedArgs, hmax, List.getElem?_map, henc]
      rfl
    · rw [hlen]

end Rows

namespace SchedulerSystem

/-- The request objects that the scheduler holds or has served. -/
def requests (s : SchedulerSystem K) : List (Request K) :=
  s.submitting ++ s.scheduler.queue.heap ++ s.worker.gathered ++ s.history.served.flatMap Prod.fst

theorem requests_popStep [LinearOrder K] {s : SchedulerSystem K} {expired : Bool}
    {cont : Option (Request K) → WorkerPoint K}
    (hsome : ∀ req, (cont (some req)).gathered = s.worker.gathered ++ [req])
    (hnone : (cont none).gathered = s.worker.gathered) {req : Request K}
    (hr : req ∈ (s.popStep expired cont).requests) : req ∈ s.requests := by
  unfold popStep at hr
  rcases s.scheduler.queue.pop_cases expired with ⟨first, q, hperm, hp⟩ | ⟨-, hp⟩
  · rw [hp] at hr
    simp only [requests, hsome, List.mem_append, List.mem_singleton] at hr ⊢
    simp only [hperm.mem_iff, List.mem_cons]
    tauto
  · rw [hp] at hr
    cases expired with
    | true => simpa [requests, hnone] using hr
    | false => exact hr

theorem requests_resolveStep {s : SchedulerSystem K} {req : Request K} {o : Outcome}
    {done : WorkerPoint K} {raised : PyException → WorkerPoint K} (hdone : done.gathered = [])
    (hraised : ∀ e, (raised e).gathered = []) {r : Request K}
    (hr : r ∈ (s.resolveStep req o done raised).requests) : r ∈ s.requests := by
  unfold resolveStep at hr
  split at hr <;>
    simp only [requests, hdone, hraised, List.append_nil, List.mem_append] at hr ⊢ <;> tauto

theorem requests_worker [Field K] [LinearOrder K] {s s' : SchedulerSystem K} {a : WorkerAction K}
    (hs : WorkerStepped s a s') {req : Request K} (hr : req ∈ s'.requests) : req ∈ s.requests := by
  cases hs with
  | poppedFirst hw =>
    refine requests_popStep (fun first => ?_) ?_ hr
    · rw [hw]
      rfl
    · rw [hw]
      rfl
  | poppedMore hw =>
    refine requests_popStep (fun more => ?_) ?_ hr
    · rw [hw]
      rfl
    · rw [hw]
      rfl
  | @ran batch r hw =>
    cases r <;>
      simp [requests, hw, WorkerPoint.gathered] at hr ⊢ <;> tauto
  | delivering | failing => exact requests_resolveStep rfl (fun _ => rfl) hr
  | checkedFull hw =>
    split_ifs at hr <;> simpa [requests, hw, WorkerPoint.gathered] using hr
  | checkedRunning hw =>
    split_ifs at hr <;> simpa [requests, hw, WorkerPoint.gathered] using hr
  | started hw | delivered hw | failed hw =>
    simpa [requests, hw, WorkerPoint.gathered] using hr
  | @accounted batch batchMs hw =>
    cases hacc : (s.scheduler.account s.futures batch batchMs).1 <;>
      simpa [requests, hw, hacc, WorkerPoint.gathered] using hr

/-- A request object comes from a call of `submit`. -/
theorem requests_step [Field K] [LinearOrder K] {s s' : SchedulerSystem K} {e : SchedulerEvent K}
    (hs : s.step e = some s') {req : Request K} (hr : req ∈ s'.requests) :
    req ∈ s.requests ∨ ∃ now, e = .submit now req := by
  cases e with
  | submit now r =>
    obtain rfl := Option.some.inj hs
    simp only [SchedulerSystem.submit] at hr
    split_ifs at hr
    · simp only [requests, List.cons_append, List.mem_cons] at hr
      rcases hr with rfl | hr
      · exact .inr ⟨now, rfl⟩
      · exact .inl hr
    · exact .inl hr
  | push r =>
    simp only [SchedulerSystem.step, SchedulerSystem.push] at hs
    split_ifs at hs with hmem
    obtain rfl := Option.some.inj hs
    left
    simp only [requests, List.mem_append, (PriorityQueue.push_perm _ r).mem_iff,
      List.mem_cons] at hr ⊢
    rcases hr with ((hr | rfl | hr) | hr) | hr
    · exact .inl (.inl (.inl (List.mem_of_mem_erase hr)))
    · exact .inl (.inl (.inl hmem))
    · exact .inl (.inl (.inr hr))
    · exact .inl (.inr hr)
    · exact .inr hr
  | cancel | stop =>
    obtain rfl := Option.some.inj hs
    exact .inl hr
  | worker a => exact .inl (requests_worker (workerStepped hs) hr)

theorem Books.requests_accepted {m : ℕ} {s : SchedulerSystem K} (h : s.Books m) {req : Request K}
    (hr : req ∈ s.requests) : req.ref ∈ s.history.accepted := by
  simp only [requests, List.mem_append] at hr
  rcases hr with ((hr | hr) | hr) | hr
  · exact h.mem_accepted (p := .submitting) (List.mem_map_of_mem hr)
  · exact h.mem_accepted (p := .heap) (List.mem_map_of_mem hr)
  · refine h.mem_accepted (p := .currentBatch) (List.mem_map_of_mem ?_)
    cases hw : s.worker <;> rw [hw] at hr <;> first | exact hr | cases hr
  · obtain ⟨b, hb, hr⟩ := List.mem_flatMap.mp hr
    exact h.accepted_of_served hb (List.mem_map_of_mem hr)

/-- The outcome is the one that the model run of a batch means for the request. -/
theorem OwnOutcome.result {served : List (Served K)} {ref : ℕ} {result : BatchResult}
    (h : OwnOutcome served ref (.ok result)) :
    ∃ (batch : List (Request K)) (results : List BatchResult) (i : ℕ) (req : Request K),
      (batch, .ok results) ∈ served ∧ batch[i]? = some req ∧ req.ref = ref ∧
        results[i]? = some result := by
  obtain ⟨⟨batch, r⟩, hb, i, hi, ho⟩ := h
  obtain ⟨req, hreq, href⟩ := Option.map_eq_some_iff.mp hi
  cases r with
  | error e => cases ho
  | ok results =>
    obtain ⟨result', hres, heq⟩ := Option.map_eq_some_iff.mp ho
    exact ⟨batch, results, i, req, hb, hreq, href, Except.ok.inj heq ▸ hres⟩

end SchedulerSystem

namespace Server

open SchedulerSystem

/-- The call with this request object was made in the run, and the scheduler knows the request
as this call put it. -/
def Asked (events : List (ServerEvent K)) (s : SchedulerSystem K) (body : GenerateRequest K)
    (ref : ℕ) (requestId : String) (arrivalTime : K) : Prop :=
  (∃ t0 now, .generate body ref requestId arrivalTime t0 now ∈ events) ∧ ref ∈ s.submitted ∧
    ∀ req ∈ s.requests, req.ref = ref → req = body.request ref requestId arrivalTime

structure Traced (events : List (ServerEvent K)) (s : Server K) : Prop where
  calls : ∀ call ∈ s.calls, ∃ body arrivalTime,
    Asked events s.system body call.ref call.requestId arrivalTime
  answers : ∀ a ∈ s.answers, ∀ response, a.answer = .ok response → ∃ body arrivalTime,
    Asked events s.system body a.ref response.requestId arrivalTime
  once : (s.calls.map Call.ref ++ s.answers.map Answered.ref).Nodup

theorem Asked.later {events : List (ServerEvent K)} {s : SchedulerSystem K}
    {body : GenerateRequest K} {ref : ℕ} {requestId : String} {arrivalTime : K}
    (h : Asked events s body ref requestId arrivalTime) (e : ServerEvent K) :
    Asked (events ++ [e]) s body ref requestId arrivalTime := by
  obtain ⟨⟨t0, now, hmem⟩, hrest⟩ := h
  exact ⟨⟨t0, now, List.mem_append_left _ hmem⟩, hrest⟩

theorem Traced.later {events : List (ServerEvent K)} {s : Server K} (h : s.Traced events)
    (e : ServerEvent K) : s.Traced (events ++ [e]) := by
  refine ⟨fun call hc => ?_, fun a ha response hr => ?_, h.once⟩
  · obtain ⟨body, arrivalTime, hask⟩ := h.calls call hc
    exact ⟨body, arrivalTime, hask.later e⟩
  · obtain ⟨body, arrivalTime, hask⟩ := h.answers a ha response hr
    exact ⟨body, arrivalTime, hask.later e⟩

theorem Traced.call_submitted {events : List (ServerEvent K)} {s : Server K} (h : s.Traced events)
    {ref : ℕ} (hr : ref ∈ s.calls.map Call.ref) : ref ∈ s.system.submitted := by
  obtain ⟨call, hc, rfl⟩ := List.mem_map.mp hr
  obtain ⟨body, arrivalTime, -, hsub, -⟩ := h.calls call hc
  exact hsub

variable [Field K] [LinearOrder K]

/-- A step of the scheduler leaves what it knows of earlier requests alone. -/
theorem Asked.system {events : List (ServerEvent K)} {s s' : SchedulerSystem K}
    {body : GenerateRequest K} {ref : ℕ} {requestId : String} {arrivalTime : K}
    (h : Asked events s body ref requestId arrivalTime) {e : SchedulerEvent K}
    (hok : s.allowed e = true) (hs : s.step e = some s') :
    Asked events s' body ref requestId arrivalTime := by
  obtain ⟨hmem, hsub, hreq⟩ := h
  have hf := forward_step hok hs
  refine ⟨hmem, ?_, fun req hr href => ?_⟩
  · rcases List.mem_append.mp hsub with hacc | hrej
    · exact List.mem_append_left _ (hf.accepted.subset hacc)
    · exact List.mem_append_right _ ((hf.rejected.map Prod.fst).subset hrej)
  · rcases requests_step hs hr with hr | ⟨now, rfl⟩
    · exact hreq req hr href
    · exact absurd (href ▸ hsub) (of_decide_eq_true hok)

theorem Traced.system {events : List (ServerEvent K)} {s : Server K} (h : s.Traced events)
    {system : SchedulerSystem K} {e : SchedulerEvent K} (hok : s.system.allowed e = true)
    (hs : s.system.step e = some system) : ({ s with system } : Server K).Traced events := by
  refine ⟨fun call hc => ?_, fun a ha response hr => ?_, h.once⟩
  · obtain ⟨body, arrivalTime, hask⟩ := h.calls call hc
    exact ⟨body, arrivalTime, hask.system hok hs⟩
  · obtain ⟨body, arrivalTime, hask⟩ := h.answers a ha response hr
    exact ⟨body, arrivalTime, hask.system hok hs⟩

theorem mem_submitted_submit (s : SchedulerSystem K) (now : K) (req : Request K) :
    req.ref ∈ (s.submit now req).submitted := by
  simp only [SchedulerSystem.submit]
  split_ifs <;> simp [submitted]

theorem Traced.submitted {m : ℕ} {events : List (ServerEvent K)} {s : Server K}
    (hb : s.system.Books m) (h : s.Traced events) {body : GenerateRequest K} {ref : ℕ}
    {requestId : String} {arrivalTime t0 now : K}
    (hok : s.allowed (.generate body ref requestId arrivalTime t0 now) = true) :
    Traced (events ++ [.generate body ref requestId arrivalTime t0 now]) { s with
      system := s.system.submit now (body.request ref requestId arrivalTime)
      calls := ⟨ref, requestId, t0, s.rejection now⟩ :: s.calls } := by
  have hnew := of_decide_eq_true hok
  have hstep : s.system.step (.submit now (body.request ref requestId arrivalTime)) =
      some (s.system.submit now (body.request ref requestId arrivalTime)) := rfl
  have h' := (h.later (.generate body ref requestId arrivalTime t0 now)).system
    (allowed_system (allowed_submit hok)) hstep
  refine ⟨fun call hc => ?_, h'.answers, ?_⟩
  · rcases List.mem_cons.mp hc with rfl | hc
    · refine ⟨body, arrivalTime, ⟨t0, now, by simp⟩, mem_submitted_submit .., fun req hr href => ?_⟩
      rcases requests_step hstep hr with hr | ⟨now', heq⟩
      · have href : req.ref = ref := href
        have hacc := hb.requests_accepted hr
        rw [href] at hacc
        exact absurd (List.mem_append_left _ hacc) hnew.1
      · exact (SchedulerEvent.submit.inj heq).2.symm
    · exact h'.calls call hc
  · refine List.nodup_cons.mpr ⟨fun hmem => ?_, h.once⟩
    rcases List.mem_append.mp hmem with hmem | hmem
    · exact hnew.1 (h.call_submitted hmem)
    · exact hnew.2 hmem

variable [FloorRing K]

theorem generateAnswer_ok {requestId : String} {elapsed : K}
    {o : Except PyException (Option BatchResult)} {response : GenerateResponse K}
    (h : generateAnswer requestId elapsed o = .ok response) :
    ∃ result, o = .ok (some result) ∧ response.requestId = requestId ∧ response.text = result.text ∧
      response.promptTokens = result.promptTokens ∧
      response.generatedTokens = result.generatedTokens := by
  unfold generateAnswer at h
  rcases o with e | (_ | result)
  · dsimp only at h
    split_ifs at h
  · cases h
  · dsimp only at h
    split_ifs at h
    obtain rfl := Answer.ok.inj h
    exact ⟨result, rfl, rfl, rfl, rfl, rfl⟩

omit [Field K] [LinearOrder K] [FloorRing K] in
theorem result_eq_some {o : Outcome} {result : BatchResult}
    (h : Outcome.result o = .ok (some result)) : o = .ok result := by
  rcases o with e | r
  · simp only [Outcome.result] at h
    split_ifs at h
    cases h
  · exact congrArg Except.ok (Option.some.inj (Except.ok.inj h))

theorem Traced.finish {events : List (ServerEvent K)} {s : Server K} (h : s.Traced events)
    {call : Call K} (hcall : call ∈ s.calls) (now : K) (r : Reply)
    (o : Except PyException (Option BatchResult)) : (s.finish call now r o).Traced events := by
  refine ⟨fun c hc => h.calls c (List.mem_of_mem_filter hc), fun a ha response hr => ?_, ?_⟩
  · rcases List.mem_append.mp ha with ha | ha
    · exact h.answers a ha response hr
    · obtain rfl := List.mem_singleton.mp ha
      obtain ⟨result, -, hid, -⟩ := generateAnswer_ok hr
      rw [hid]
      exact h.calls call hcall
  · show ((s.calls.filter (·.ref ≠ call.ref)).map Call.ref ++
      (s.answers ++ [_]).map Answered.ref).Nodup
    rw [List.map_append, List.map_singleton]
    exact (map_filter_ne_append_perm Call.ref hcall (List.nodup_append.mp h.once).1 _).nodup_iff.mpr
      h.once

theorem Traced.step {m : ℕ} {events : List (ServerEvent K)} {s s' : Server K}
    (hb : s.system.Books m) (h : s.Traced events) {e : ServerEvent K} (hok : s.allowed e = true)
    (hs : Stepped s e s') : s'.Traced (events ++ [e]) := by
  cases hs with
  | submitted => exact h.submitted hb hok
  | @notRunning body ref requestId arrivalTime t0 now =>
    have h' := h.later (.generate body ref requestId arrivalTime t0 now)
    have hnew := of_decide_eq_true hok
    refine ⟨h'.calls, fun a ha response hr => ?_, ?_⟩
    · rcases List.mem_append.mp ha with ha | ha
      · exact h'.answers a ha response hr
      · obtain rfl := List.mem_singleton.mp ha
        cases hr
    · rw [List.map_append, ← List.append_assoc]
      refine (List.perm_append_singleton _ _).nodup_iff.mpr (List.nodup_cons.mpr ⟨?_, h.once⟩)
      rw [List.mem_append, not_or]
      exact ⟨fun hmem => hnew.1 (h.call_submitted hmem), hnew.2⟩
  | finished hcall hf => exact (h.later _).finish hcall ..
  | cancelled hcall hf => exact (h.later _).finish hcall ..
  | timedOut hcall hf => exact (h.later _).finish hcall ..
  | drainCalled | polled | drained | expired | cleared =>
    have h' := h.later
    exact ⟨(h' _).calls, (h' _).answers, h.once⟩
  | scheduled hsys => exact (h.later _).system (allowed_system hok) hsys

theorem traced_of_run {maxBatchSize : ℕ} (hmax : 1 ≤ maxBatchSize) {rate burst now : K}
    {events : List (ServerEvent K)} {s : Server K}
    (h : (machine maxBatchSize rate burst now).Run events s)
    (hok : (machine maxBatchSize rate burst now).Meets (fun s e => s.allowed e) events) :
    s.Traced events := by
  induction h with
  | nil => constructor <;> simp [machine]
  | snoc hr hs ih =>
    have hbefore := hok.mono (List.prefix_append _ _)
    exact (ih hbefore).step (books_of_run hmax hr hbefore) (hok.last hr) (stepped hs)

omit [Field K] [LinearOrder K] [FloorRing K] in
/-- What the model run of batch number `k` returns or raises is what `_run_batch` makes of what
the model, which samples, answers then. -/
def runsModel (tokenizer : Tokenizer) (model : ℕ → Generate K) (s : Server K) :
    ServerEvent K → Bool
  | .scheduler (.worker (.runBatch r)) =>
    match s.system.worker with
    | .runBatch batch =>
      r = runBatch tokenizer (model s.system.history.served.length) batch
    | _ => true
  | _ => true

omit [Field K] [LinearOrder K] [FloorRing K] in
def RunsModel (tokenizer : Tokenizer) (model : ℕ → Generate K) (s : Server K) : Prop :=
  ∀ k batch r, s.system.history.served[k]? = some (batch, r) → r = runBatch tokenizer (model k) batch

variable {tokenizer : Tokenizer} {model : ℕ → Generate K}

theorem RunsModel.step {s s' : Server K} {e : ServerEvent K} (h : s.RunsModel tokenizer model)
    (hruns : s.runsModel tokenizer model e = true) (hs : Stepped s e s') :
    s'.RunsModel tokenizer model := by
  cases hs with
  | @submitted body ref requestId arrivalTime t0 now =>
    intro k batch r hk
    refine h k batch r ?_
    simp only [SchedulerSystem.submit] at hk
    split_ifs at hk <;> exact hk
  | @scheduled e system hsys =>
    intro k batch r hk
    cases countStepped hsys with
    | same hserved | counted _ hserved => exact h k batch r (hserved ▸ hk)
    | @ran batch' r' hw he hserved =>
      subst he
      rw [hserved] at hk
      rcases Nat.lt_or_ge k s.system.history.served.length with hlt | hge
      · rw [List.getElem?_append_left hlt] at hk
        exact h k batch r hk
      · rw [List.getElem?_append_right hge, List.getElem?_singleton] at hk
        split_ifs at hk with hzero
        obtain ⟨rfl, rfl⟩ := Prod.mk.inj (Option.some.inj hk)
        have hlen : k = s.system.history.served.length := by omega
        simpa [runsModel, hw, hlen] using hruns
  | _ => exact h

theorem runsModel_of_run {maxBatchSize : ℕ} {rate burst now : K} {events : List (ServerEvent K)}
    {s : Server K} (h : (machine maxBatchSize rate burst now).Run events s)
    (hruns : (machine maxBatchSize rate burst now).Meets
      (fun s e => s.runsModel tokenizer model e) events) : s.RunsModel tokenizer model :=
  Machine.Run.invariant_of_meets (I := fun _ s => s.RunsModel tokenizer model)
    (fun k batch r hk => by simp [machine, SchedulerSystem.machine] at hk)
    (fun _ _ _ _ _ hI hok hs => hI.step hok (stepped hs)) h hruns

/-- A text is the outcome of the request in its own batch. -/
theorem served_of_answer {maxBatchSize : ℕ} (hmax : 1 ≤ maxBatchSize) {rate burst now : K}
    {events : List (ServerEvent K)} {s : Server K}
    (h : (machine maxBatchSize rate burst now).Run events s)
    (hok : (machine maxBatchSize rate burst now).Meets (fun s e => s.allowed e) events)
    {a : Answered K} (ha : a ∈ s.answers) {response : GenerateResponse K}
    (hr : a.answer = .ok response) :
    ∃ result, OwnOutcome s.system.history.served a.ref (.ok result) ∧
      response.text = result.text ∧ response.promptTokens = result.promptTokens ∧
      response.generatedTokens = result.generatedTokens := by
  have hex := (known_of_run hmax h hok).explained a ha
  cases hex with
  | notRunning => cases hr
  | rejected | timedOut =>
    dsimp only at hr
    obtain ⟨result, ho, -⟩ := generateAnswer_ok hr
    cases ho
  | @served ref requestId elapsed o hacc hown =>
    dsimp only at hr
    obtain ⟨result, hresult, -, htext⟩ := generateAnswer_ok hr
    obtain rfl := result_eq_some hresult
    exact ⟨result, hown, htext⟩

/-- An answer with a text is the one for the prompt of its own call. -/
theorem integrity_of_answer {maxBatchSize : ℕ} (hmax : 1 ≤ maxBatchSize) {rate burst now : K}
    {events : List (ServerEvent K)} {s : Server K}
    (h : (machine maxBatchSize rate burst now).Run events s)
    (hok : (machine maxBatchSize rate burst now).Meets (fun s e => s.allowed e) events)
    (hruns : (machine maxBatchSize rate burst now).Meets
      (fun s e => s.runsModel tokenizer model e) events) {a : Answered K} (ha : a ∈ s.answers)
    {response : GenerateResponse K} (hr : a.answer = .ok response) :
    ∃ body arrivalTime t0 now, ∃ k : ℕ, ∃ batch, ∃ i : ℕ, ∃ result,
      .generate body a.ref response.requestId arrivalTime t0 now ∈ events ∧
      (s.system.history.served.map Prod.fst)[k]? = some batch ∧
      batch[i]? = some (body.request a.ref response.requestId arrivalTime) ∧
      OwnRow tokenizer (model k) batch body.prompt i result ∧ response.text = result.text ∧
      response.promptTokens = result.promptTokens ∧
      response.generatedTokens = result.generatedTokens := by
  obtain ⟨body, arrivalTime, ⟨t0, now', hmem⟩, -, hreq⟩ :=
    (traced_of_run hmax h hok).answers a ha response hr
  obtain ⟨result, hown, htext⟩ := served_of_answer hmax h hok ha hr
  obtain ⟨batch, results, i, req, hb, hi, href, hres⟩ := OwnOutcome.result hown
  have hmem' : req ∈ s.system.requests :=
    List.mem_append_right _ (List.mem_flatMap.mpr ⟨_, hb, List.mem_of_getElem? hi⟩)
  obtain rfl := hreq req hmem' href
  obtain ⟨k, hk⟩ := List.mem_iff_getElem?.mp hb
  refine ⟨body, arrivalTime, t0, now', k, batch, i, result, hmem, ?_, hi, ?_, htext⟩
  · rw [List.getElem?_map, hk]
    rfl
  · exact runBatch_ownRow (runsModel_of_run h hruns k batch _ hk).symm hi hres

/-- Whatever the interleaving of calls, worker and drain, with any tokenizer and whatever the model
samples: no call is answered twice, and an answer with a text is the one for the call's own prompt,
from the model call that was made for its batch. -/
theorem response_integrity {maxBatchSize : ℕ} (hmax : 1 ≤ maxBatchSize) {rate burst now : K}
    {events : List (ServerEvent K)} {s : Server K}
    (h : (machine maxBatchSize rate burst now).Run events s)
    (hok : (machine maxBatchSize rate burst now).Meets (fun s e => s.allowed e) events)
    (hruns : (machine maxBatchSize rate burst now).Meets
      (fun s e => s.runsModel tokenizer model e) events) :
    (s.calls.map Call.ref ++ s.answers.map Answered.ref).Nodup ∧
      ∀ a ∈ s.answers, ∀ response, a.answer = .ok response →
        ∃ body arrivalTime t0 now, ∃ k : ℕ, ∃ batch, ∃ i : ℕ, ∃ result,
          .generate body a.ref response.requestId arrivalTime t0 now ∈ events ∧
          (s.system.history.served.map Prod.fst)[k]? = some batch ∧
          batch[i]? = some (body.request a.ref response.requestId arrivalTime) ∧
          OwnRow tokenizer (model k) batch body.prompt i result ∧ response.text = result.text ∧
          response.promptTokens = result.promptTokens ∧
          response.generatedTokens = result.generatedTokens :=
  ⟨(traced_of_run hmax h hok).once, fun _ ha _ hr => integrity_of_answer hmax h hok hruns ha hr⟩

/-- Two prompts; the model repeats the first token of each. -/
def twoWords : Tokenizer where
  encode prompt := if prompt = "hello" then ⟨[5, 6], [1, 1]⟩ else ⟨[7], [1]⟩
  decode ids _ := if ids = [5] then "five" else "seven"
  padTokenId := none
  eosTokenId := 0

def repeats : Generate ℚ := fun args => .ok (args.inputIds.map fun row => row ++ row.take 1)

/-- Two calls end up in one batch, the second of them first. -/
def swapped : List (ServerEvent ℚ) :=
  let body (prompt : String) (priority : ℤ) : GenerateRequest ℚ :=
    { prompt, temperature := 1, topP := 1, priority }
  [.scheduler (.worker .start), .generate (body "hello" 5) 1 "a" 0 0 0,
    .generate (body "world" 1) 2 "b" 0 0 0, .scheduler (.push ((body "hello" 5).request 1 "a" 0)),
    .scheduler (.push ((body "world" 1).request 2 "b" 0)), .scheduler (.worker .checkRunning),
    .scheduler (.worker (.popFirst false)), .scheduler (.worker (.checkFull false)),
    .scheduler (.worker (.popMore false)), .scheduler (.worker (.checkFull true)),
    .scheduler (.worker (.runBatch (.ok [⟨"seven", 1, 1⟩, ⟨"five", 2, 1⟩]))),
    .scheduler (.worker .resolve), .scheduler (.worker .resolve), .result 1 1, .result 2 1]

theorem response_integrity_swapped : ∃ s, (machine 8 50 20 0).Run swapped s ∧
    s.answers.map Answered.ref = [1, 2] ∧ ∀ a ∈ s.answers, ∀ response, a.answer = .ok response →
      ∃ body arrivalTime t0 now, ∃ k : ℕ, ∃ batch, ∃ i : ℕ, ∃ result,
        .generate body a.ref response.requestId arrivalTime t0 now ∈ swapped ∧
        (s.system.history.served.map Prod.fst)[k]? = some batch ∧
        batch[i]? = some (body.request a.ref response.requestId arrivalTime) ∧
        OwnRow twoWords repeats batch body.prompt i result ∧ response.text = result.text ∧
        response.promptTokens = result.promptTokens ∧
        response.generatedTokens = result.generatedTokens := by
  have hexec : ((machine 8 50 20 0).exec (machine 8 50 20 0).init swapped).map
      (fun s => s.answers.map Answered.ref) = some [1, 2] := by
    decide +kernel
  obtain ⟨s, hs, hrefs⟩ := Option.map_eq_some_iff.mp hexec
  have hr := (Machine.run_iff_exec _).mpr hs
  have hok : (machine (8 : ℕ) (50 : ℚ) 20 0).Meets (fun s e => s.allowed e) swapped :=
    Machine.meets_of_checks _ (by decide +kernel)
  have hruns : (machine (8 : ℕ) (50 : ℚ) 20 0).Meets
      (fun s e => s.runsModel twoWords (fun _ => repeats) e) swapped :=
    Machine.meets_of_checks _ (by decide +kernel)
  exact ⟨s, hr, hrefs, (response_integrity (by decide) hr hok hruns).2⟩

end Server
end InferenceCluster
