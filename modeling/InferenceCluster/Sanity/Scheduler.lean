import InferenceCluster.Spec.Scheduler
import Mathlib.Data.List.Nodup

/-! The books of the scheduler: one invariant that says where every request is, what its
future holds and which batches were served, and what each section does to it. -/

namespace InferenceCluster

variable {K : Type}

namespace WorkerPoint

/-- The batch that was served and is not counted yet. -/
def inFlight : WorkerPoint K → List (List (Request K))
  | .delivering batch _ | .failing batch _ _ | .accounting batch => [batch]
  | .notStarted | .loopTop | .waitFirst | .collecting _ | .waitMore _ | .runBatch _ | .exited
  | .crashed _ => []

/-- The requests of that batch that are not resolved yet. -/
def unresolved : WorkerPoint K → List (Request K)
  | .delivering _ todo => todo.map Prod.fst
  | .failing _ _ todo => todo
  | .notStarted | .loopTop | .waitFirst | .collecting _ | .waitMore _ | .runBatch _
  | .accounting _ | .exited | .crashed _ => []

/-- What holds at the worker's point, given the batches served so far. -/
def Ok (maxBatchSize : ℕ)
    (served : List (List (Request K) × Except PyException (List BatchResult))) :
    WorkerPoint K → Prop
  | .collecting batch | .runBatch batch => 1 ≤ batch.length ∧ batch.length ≤ maxBatchSize
  | .waitMore batch => 1 ≤ batch.length ∧ batch.length < maxBatchSize
  | .delivering batch todo =>
    ∃ results, (batch, .ok results) ∈ served ∧ todo <:+ batch.zip results
  | .failing batch e todo => (batch, .error e) ∈ served ∧ todo <:+ batch
  | .crashed e => e = noResult ∧ ∃ b ∈ served, ∃ e', b.2 = .error e' ∧ e'.truth = false
  | .notStarted | .loopTop | .waitFirst | .accounting _ | .exited => True

end WorkerPoint

namespace Futures

variable {fs : Futures} {batch : List (Request K)}

theorem generatedTokens_of_not_mem {results : List (Option BatchResult)} (h : none ∉ results) :
    ∃ n, generatedTokens results = .ok n := by
  induction results with
  | nil => exact ⟨0, rfl⟩
  | cons r results ih =>
    rcases r with _ | r
    · exact absurd List.mem_cons_self h
    · obtain ⟨n, hn⟩ := ih fun hr => h (List.mem_cons_of_mem _ hr)
      exact ⟨r.generatedTokens + n, by rw [generatedTokens, hn]; rfl⟩

theorem generatedTokens_error {results : List (Option BatchResult)} {e : PyException}
    (h : generatedTokens results = .error e) : e = noResult := by
  induction results with
  | nil => cases h
  | cons r results ih =>
    rcases r with _ | r
    · cases h
      rfl
    · rw [generatedTokens] at h
      rcases hg : generatedTokens results with e' | n
      · rw [hg] at h
        cases h
        exact ih hg
      · rw [hg] at h
        cases h

/-- The list of results is built without an exception once all futures are finished; there is
a `None` on it where an exception is false as a condition. -/
theorem results_of_finished (hfin : ∀ req ∈ batch, ∃ o, fs req.ref = some (.finished o)) :
    ∃ results, fs.results batch = .ok results ∧ (none ∈ results →
      ∃ req ∈ batch, ∃ e, fs req.ref = some (.finished (.error e)) ∧ e.truth = false) := by
  induction batch with
  | nil => exact ⟨[], rfl, fun h => absurd h List.not_mem_nil⟩
  | cons req batch ih =>
    obtain ⟨o, ho⟩ := hfin req List.mem_cons_self
    obtain ⟨rest, hrest, hnone⟩ := ih fun r hr => hfin r (List.mem_cons_of_mem _ hr)
    have hlater : none ∈ rest → ∃ r ∈ req :: batch, ∃ e,
        fs r.ref = some (.finished (.error e)) ∧ e.truth = false := fun h => by
      obtain ⟨r, hr, he⟩ := hnone h
      exact ⟨r, List.mem_cons_of_mem _ hr, he⟩
    rcases o with e | r
    · cases ht : e.truth with
      | true =>
        refine ⟨rest, ?_, hlater⟩
        simp only [results, ho, Future.counted, Outcome.failed, ht, hrest]
        rfl
      | false =>
        refine ⟨none :: rest, ?_, fun _ => ⟨req, List.mem_cons_self, e, ho, ht⟩⟩
        simp only [results, ho, Future.counted, Outcome.failed, Outcome.result, ht, hrest]
        rfl
    · refine ⟨some r :: rest, ?_, fun h => hlater ?_⟩
      · simp only [results, ho, Future.counted, Outcome.failed, Outcome.result, hrest]
        rfl
      · simpa using h

/-- Adding up the tokens of finished futures raises nothing but the `AttributeError` of a `None`,
which stands for an exception that is false as a condition. -/
theorem tokens_error {e : PyException}
    (hfin : ∀ req ∈ batch, ∃ o, fs req.ref = some (.finished o)) (h : fs.tokens batch = .error e) :
    e = noResult ∧
      ∃ req ∈ batch, ∃ e', fs req.ref = some (.finished (.error e')) ∧ e'.truth = false := by
  obtain ⟨results, hresults, hnone⟩ := results_of_finished hfin
  have hgen : generatedTokens results = .error e := by
    rw [tokens, hresults] at h
    exact h
  refine ⟨generatedTokens_error hgen, hnone ?_⟩
  by_contra hmem
  obtain ⟨n, hn⟩ := generatedTokens_of_not_mem hmem
  rw [hn] at hgen
  cases hgen

end Futures

namespace Scheduler

variable [Add K] (s : Scheduler K) (fs : Futures) (batch : List (Request K)) (batchMs : K)

theorem account_error {e : PyException} (h : (s.account fs batch batchMs).1 = .error e) :
    fs.tokens batch = .error e := by
  unfold account at h
  split at h
  · cases h
  · rename_i ht
    cases h
    exact ht

@[simp] theorem account_queue : (s.account fs batch batchMs).2.queue = s.queue := by
  unfold account
  split <;> rfl

@[simp] theorem account_maxBatchSize :
    (s.account fs batch batchMs).2.maxBatchSize = s.maxBatchSize := by
  unfold account
  split <;> rfl

@[simp] theorem account_requestsProcessed :
    (s.account fs batch batchMs).2.requestsProcessed = s.requestsProcessed + batch.length := by
  unfold account
  split <;> rfl

end Scheduler

namespace SchedulerSystem

/-! ### Sections of the worker -/

section Sections

variable [Field K] [LinearOrder K]

/-- The sections of the worker thread, one constructor for each point. -/
inductive WorkerStepped (s : SchedulerSystem K) : WorkerAction K → SchedulerSystem K → Prop
  | started (hw : s.worker = .notStarted) :
      WorkerStepped s .start { s with scheduler.running := true, worker := .loopTop }
  | checkedRunning (hw : s.worker = .loopTop) :
      WorkerStepped s .checkRunning
        { s with worker := if s.scheduler.running then .waitFirst else .exited }
  | poppedFirst {expired : Bool} (hw : s.worker = .waitFirst) :
      WorkerStepped s (.popFirst expired) (s.popStep expired fun
        | some first => .collecting [first]
        | none => .loopTop)
  | checkedFull {batch : List (Request K)} {expired : Bool} (hw : s.worker = .collecting batch) :
      WorkerStepped s (.checkFull expired) { s with
        worker :=
          if batch.length < s.scheduler.maxBatchSize ∧ expired = false then .waitMore batch
          else .runBatch batch }
  | poppedMore {batch : List (Request K)} {expired : Bool} (hw : s.worker = .waitMore batch) :
      WorkerStepped s (.popMore expired) (s.popStep expired fun
        | some more => .collecting (batch ++ [more])
        | none => .runBatch batch)
  | ran {batch : List (Request K)} {r : Except PyException (List BatchResult)}
      (hw : s.worker = .runBatch batch) :
      WorkerStepped s (.runBatch r) { s with
        worker := match r with
          | .ok results => .delivering batch (batch.zip results)
          | .error e => .failing batch e batch
        history.served := s.history.served ++ [(batch, r)] }
  | delivered {batch : List (Request K)} (hw : s.worker = .delivering batch []) :
      WorkerStepped s .resolve { s with worker := .accounting batch }
  | delivering {batch : List (Request K)} {req : Request K} {result : BatchResult}
      {todo : List (Request K × BatchResult)}
      (hw : s.worker = .delivering batch ((req, result) :: todo)) :
      WorkerStepped s .resolve (s.resolveStep req (.ok result) (.delivering batch todo)
        fun e => .failing batch e batch)
  | failed {batch : List (Request K)} {e : PyException} (hw : s.worker = .failing batch e []) :
      WorkerStepped s .resolve { s with worker := .accounting batch }
  | failing {batch : List (Request K)} {e : PyException} {req : Request K}
      {todo : List (Request K)} (hw : s.worker = .failing batch e (req :: todo)) :
      WorkerStepped s .resolve
        (s.resolveStep req (.error e) (.failing batch e todo) .crashed)
  | accounted {batch : List (Request K)} {batchMs : K} (hw : s.worker = .accounting batch) :
      WorkerStepped s (.account batchMs) { s with
        scheduler := (s.scheduler.account s.futures batch batchMs).2
        worker := match (s.scheduler.account s.futures batch batchMs).1 with
          | .ok () => .loopTop
          | .error e => .crashed e
        history.completed := s.history.completed ++ [batch] }

theorem workerStepped {s s' : SchedulerSystem K} {a : WorkerAction K}
    (h : s.workerStep a = some s') : WorkerStepped s a s' := by
  unfold SchedulerSystem.workerStep at h
  split at h <;> rename_i hw
  · exact Option.some.inj h ▸ .started hw
  · exact Option.some.inj h ▸ .checkedRunning hw
  · exact Option.some.inj h ▸ .poppedFirst hw
  · exact Option.some.inj h ▸ .checkedFull hw
  · exact Option.some.inj h ▸ .poppedMore hw
  · exact Option.some.inj h ▸ .ran hw
  · exact Option.some.inj h ▸ .delivered hw
  · exact Option.some.inj h ▸ .delivering hw
  · exact Option.some.inj h ▸ .failed hw
  · exact Option.some.inj h ▸ .failing hw
  · exact Option.some.inj h ▸ .accounted hw
  · cases h

end Sections

/-! ### What sections move -/

theorem nodup_accepted {s : SchedulerSystem K} (h : s.submitted.Nodup) {ref : ℕ}
    (hnew : ref ∉ s.submitted) :
    (s.history.accepted ++ [ref] ++ s.history.rejected.map Prod.fst).Nodup := by
  have hperm : (s.history.accepted ++ [ref] ++ s.history.rejected.map Prod.fst).Perm
      (ref :: s.submitted) := by
    rw [List.append_assoc, List.singleton_append]
    exact List.perm_middle
  exact hperm.nodup_iff.mpr (List.nodup_cons.mpr ⟨hnew, h⟩)

theorem nodup_rejected {s : SchedulerSystem K} (h : s.submitted.Nodup) {ref : ℕ}
    (hnew : ref ∉ s.submitted) (f : Future) :
    (s.history.accepted ++ (s.history.rejected ++ [(ref, f)]).map Prod.fst).Nodup := by
  rw [List.map_append, ← List.append_assoc]
  exact (List.perm_append_singleton _ _).nodup_iff.mpr (List.nodup_cons.mpr ⟨hnew, h⟩)

section Queue

variable [LinearOrder K]

theorem count_push {s : SchedulerSystem K} {req : Request K} (hmem : req ∈ s.submitting) (ref : ℕ) :
    ((s.submitting.erase req).map Request.ref).count ref +
        ((s.scheduler.queue.push req).heap.map Request.ref).count ref =
      (s.refsAt .submitting).count ref + (s.refsAt .heap).count ref := by
  have hsub := ((List.perm_cons_erase hmem).map Request.ref).count_eq ref
  have hheap := ((s.scheduler.queue.push_perm req).map Request.ref).count_eq ref
  simp only [refsAt, List.map_cons, List.count_cons] at hsub hheap ⊢
  omega

theorem count_pop {q q' : PriorityQueue K} {expired : Bool} {r : Option (Request K)}
    (hp : q.pop expired = some (r, q')) (ref : ℕ) :
    (q.heap.map Request.ref).count ref =
      (q'.heap.map Request.ref).count ref + (r.toList.map Request.ref).count ref := by
  rcases r with _ | req
  · obtain ⟨rfl, -⟩ := PriorityQueue.pop_timeout hp
    rfl
  · rw [((PriorityQueue.pop_some hp).map Request.ref).count_eq ref, List.map_cons, List.count_cons]
    simp [List.count_cons]

end Queue

/-- The outcome is the one for the request's own index in its own batch. -/
def OwnOutcome (served : List (List (Request K) × Except PyException (List BatchResult)))
    (ref : ℕ) (o : Outcome) : Prop :=
  ∃ b ∈ served, ∃ i, b.1[i]?.map Request.ref = some ref ∧ outcomeAt b.2 i = some o

theorem OwnOutcome.error {served : List (List (Request K) × Except PyException (List BatchResult))}
    {ref : ℕ} {e : PyException} (h : OwnOutcome served ref (.error e)) :
    ∃ b ∈ served, b.2 = .error e := by
  obtain ⟨⟨batch, e' | results⟩, hb, i, -, hi⟩ := h
  · exact ⟨_, hb, congrArg Except.error (Except.error.inj (Option.some.inj hi))⟩
  · simp [outcomeAt] at hi

structure Books (maxBatchSize : ℕ) (s : SchedulerSystem K) : Prop where
  limit : s.scheduler.maxBatchSize = maxBatchSize
  distinct : s.submitted.Nodup
  places : ∀ ref, s.history.accepted.count ref =
    (s.refsAt .submitting).count ref + (s.refsAt .heap).count ref +
      (s.refsAt .currentBatch).count ref + (s.refsAt .resolved).count ref
  pending : ∀ ref ∈ s.history.accepted, ref ∉ s.refsAt .resolved → s.futures ref = some .pending
  finished : ∀ r ∈ s.history.resolutions, s.futures r.1 = some (.finished r.2) ∧
    OwnOutcome s.history.served r.1 r.2
  served : ∀ ref, (s.history.served.flatMap fun b => b.1.map Request.ref).count ref =
    (s.worker.unresolved.map Request.ref).count ref + (s.refsAt .resolved).count ref
  sizes : ∀ b ∈ s.history.served, 1 ≤ b.1.length ∧ b.1.length ≤ maxBatchSize
  point : s.worker.Ok maxBatchSize s.history.served
  completed : s.history.served.map Prod.fst = s.history.completed ++ s.worker.inFlight
  processed : s.scheduler.requestsProcessed = (s.history.completed.map List.length).sum

namespace Books

variable {m : ℕ} {s s' : SchedulerSystem K}

theorem point_at (h : s.Books m) {w : WorkerPoint K} (hw : s.worker = w) :
    w.Ok m s.history.served :=
  hw ▸ h.point

theorem mem_accepted (h : s.Books m) {p : Place} {ref : ℕ} (hp : ref ∈ s.refsAt p) :
    ref ∈ s.history.accepted := by
  have hc := h.places ref
  have hpos := List.count_pos_iff.mpr hp
  apply List.count_pos_iff.mp
  cases p <;> omega

theorem count_le_one (h : s.Books m) (ref : ℕ) :
    (s.refsAt .submitting).count ref + (s.refsAt .heap).count ref +
      (s.refsAt .currentBatch).count ref + (s.refsAt .resolved).count ref ≤ 1 := by
  rw [← h.places]
  apply List.nodup_iff_count_le_one.mp
  exact (List.nodup_append.mp h.distinct).1

/-- No request is in two places. -/
theorem place_unique (h : s.Books m) {p q : Place} {ref : ℕ} (hp : ref ∈ s.refsAt p)
    (hq : ref ∈ s.refsAt q) : p = q := by
  have hle := h.count_le_one ref
  have hp' := List.count_pos_iff.mpr hp
  have hq' := List.count_pos_iff.mpr hq
  cases p <;> cases q <;> first | rfl | omega

theorem exists_place (h : s.Books m) {ref : ℕ} (hr : ref ∈ s.history.accepted) :
    ∃ p, ref ∈ s.refsAt p := by
  by_contra hno
  have hzero : ∀ p, (s.refsAt p).count ref = 0 := fun p =>
    List.count_eq_zero.mpr fun hp => hno ⟨p, hp⟩
  have hc := h.places ref
  have hpos := List.count_pos_iff.mpr hr
  simp only [hzero] at hc
  omega

theorem refsAt_nodup (h : s.Books m) (p : Place) : (s.refsAt p).Nodup := by
  apply List.nodup_iff_count_le_one.mpr
  intro ref
  have hle := h.count_le_one ref
  cases p <;> omega

/-- What is left of the batch in flight is part of the current batch. -/
theorem unresolved_count_le (s : SchedulerSystem K) (ref : ℕ) :
    (s.worker.unresolved.map Request.ref).count ref ≤ (s.refsAt .currentBatch).count ref := by
  unfold refsAt
  cases s.worker <;> simp [WorkerPoint.unresolved, WorkerPoint.current]

theorem served_nodup (h : s.Books m) :
    (s.history.served.flatMap fun b => b.1.map Request.ref).Nodup := by
  apply List.nodup_iff_count_le_one.mpr
  intro ref
  have hle := h.count_le_one ref
  have hu := unresolved_count_le s ref
  rw [h.served ref]
  omega

/-- A request of the current batch has a pending future. -/
theorem pending_of_current (h : s.Books m) {req : Request K} (hr : req ∈ s.worker.current) :
    s.futures req.ref = some .pending := by
  have hm : req.ref ∈ s.refsAt .currentBatch := List.mem_map_of_mem hr
  refine h.pending _ (h.mem_accepted hm) fun hres => ?_
  cases h.place_unique hm hres

/-- A section that only moves requests between the first three places. -/
theorem move (h : s.Books m) (hmax : s'.scheduler.maxBatchSize = s.scheduler.maxBatchSize)
    (hproc : s'.scheduler.requestsProcessed = s.scheduler.requestsProcessed)
    (hfut : s'.futures = s.futures) (hhist : s'.history = s.history)
    (hcount : ∀ ref, (s'.refsAt .submitting).count ref + (s'.refsAt .heap).count ref +
        (s'.refsAt .currentBatch).count ref =
      (s.refsAt .submitting).count ref + (s.refsAt .heap).count ref +
        (s.refsAt .currentBatch).count ref)
    (hunres : s'.worker.unresolved = s.worker.unresolved)
    (hflight : s'.worker.inFlight = s.worker.inFlight)
    (hpoint : s'.worker.Ok m s.history.served) : s'.Books m := by
  have hres : s'.refsAt .resolved = s.refsAt .resolved := by
    simp only [refsAt, hhist]
  constructor
  · rw [hmax, h.limit]
  · simpa only [submitted, hhist] using h.distinct
  · intro ref
    rw [hhist, hres, h.places ref, ← hcount ref]
  · simpa only [hhist, hres, hfut] using h.pending
  · simpa only [hhist, hfut] using h.finished
  · simpa only [hhist, hres, hunres] using h.served
  · simpa only [hhist] using h.sizes
  · rwa [hhist]
  · rw [hhist, hflight, h.completed]
  · rw [hproc, hhist, h.processed]

/-- The worker resolves the future of the next request in its batch: the future is pending,
so the call cannot raise. -/
theorem resolveStep (h : s.Books m) {req : Request K} {o : Outcome} {w₀ done : WorkerPoint K}
    {raised : PyException → WorkerPoint K} (hw : s.worker = w₀)
    (hcur : w₀.current = req :: done.current) (hunres : w₀.unresolved = w₀.current)
    (hunres' : done.unresolved = done.current) (hflight : done.inFlight = w₀.inFlight)
    (hpoint : done.Ok m s.history.served) (hown : OwnOutcome s.history.served req.ref o) :
    (s.resolveStep req o done raised).Books m := by
  subst hw
  have hpend : s.futures req.ref = some .pending := h.pending_of_current (by simp [hcur])
  have hset : s.futures.resolve req.ref o =
      .ok (Function.update s.futures req.ref (some (.finished o))) := by
    simp [Futures.resolve, hpend, Future.resolve, Except.map]
  have hplaces : ∀ ref, (s.refsAt .currentBatch).count ref + (s.refsAt .resolved).count ref =
      (done.current.map Request.ref).count ref +
        ((s.history.resolutions ++ [(req.ref, o)]).map Prod.fst).count ref := by
    intro ref
    simp only [refsAt, hcur, List.map_append, List.map_cons, List.map_nil,
      List.count_append, List.count_cons, List.count_nil]
    omega
  unfold SchedulerSystem.resolveStep
  rw [hset]
  refine { h with places := ?_, pending := ?_, finished := ?_, served := ?_, point := hpoint
                  completed := hflight ▸ h.completed }
  · intro ref
    have hc := h.places ref
    have hp := hplaces ref
    simp only [refsAt] at hc hp ⊢
    omega
  · intro ref hr hres
    simp only [refsAt, List.map_append, List.mem_append, List.map_cons, List.map_nil,
      List.mem_singleton, not_or] at hres
    simpa only [Function.update_of_ne hres.2] using h.pending ref hr hres.1
  · intro r hr
    rcases List.mem_append.mp hr with hr | hr
    · have hne : r.1 ≠ req.ref := by
        intro he
        have hf := (h.finished r hr).1
        rw [he, hpend] at hf
        cases hf
      simpa only [Function.update_of_ne hne] using h.finished r hr
    · obtain rfl := List.mem_singleton.mp hr
      exact ⟨Function.update_self .., hown⟩
  · intro ref
    have hc := h.served ref
    have hp := hplaces ref
    simp only [refsAt, hunres, hunres'] at hc hp ⊢
    omega

theorem setRunning (h : s.Books m) (b : Bool) :
    ({ s with scheduler.running := b } : SchedulerSystem K).Books m :=
  h.move rfl rfl rfl rfl (fun _ => rfl) rfl rfl h.point

theorem setWorker (h : s.Books m) {w₀ w : WorkerPoint K} (hw : s.worker = w₀)
    (hcur : w.current = w₀.current) (hunres : w.unresolved = w₀.unresolved)
    (hflight : w.inFlight = w₀.inFlight) (hpoint : w.Ok m s.history.served) :
    ({ s with worker := w } : SchedulerSystem K).Books m := by
  subst hw
  refine h.move rfl rfl rfl rfl (fun ref => ?_) hunres hflight hpoint
  simp only [refsAt, hcur]

/-- The model run of a batch is over. -/
theorem serve (h : s.Books m) {batch : List (Request K)} {r : Except PyException (List BatchResult)}
    {w : WorkerPoint K} (hw : s.worker = .runBatch batch) (hcur : w.current = batch)
    (hunres : w.unresolved = w.current) (hflight : w.inFlight = [batch])
    (hpoint : w.Ok m (s.history.served ++ [(batch, r)])) :
    ({ s with worker := w, history.served := s.history.served ++ [(batch, r)] } :
      SchedulerSystem K).Books m := by
  refine { h with places := ?_, finished := ?_, served := ?_, sizes := ?_, point := hpoint
                  completed := ?_ }
  · have hcur' : w.current = s.worker.current := by
      rw [hw, hcur]
      rfl
    simpa only [refsAt, hcur'] using h.places
  · intro r' hr
    obtain ⟨hf, b, hb, hi⟩ := h.finished r' hr
    exact ⟨hf, b, List.mem_append_left _ hb, hi⟩
  · intro ref
    have hc := h.served ref
    simp only [hw, refsAt, WorkerPoint.unresolved, List.map_nil, List.count_nil] at hc
    simp only [refsAt, List.flatMap_append, List.count_append, hunres, hcur, List.flatMap_cons,
      List.flatMap_nil, List.append_nil]
    omega
  · intro b hb
    rcases List.mem_append.mp hb with hb | hb
    · exact h.sizes b hb
    · obtain rfl := List.mem_singleton.mp hb
      exact h.point_at hw
  · have hc := h.completed
    simp only [hw, WorkerPoint.inFlight, List.append_nil] at hc
    rw [List.map_append, hc, hflight, List.map_singleton]

/-- A served request that is not among those still to resolve has its outcome. -/
theorem resolved_of_served (h : s.Books m) {batch : List (Request K)} {req : Request K}
    (hbatch : batch ∈ s.history.served.map Prod.fst) (hr : req ∈ batch)
    (hnot : req.ref ∉ s.worker.unresolved.map Request.ref) :
    ∃ o, (req.ref, o) ∈ s.history.resolutions := by
  obtain ⟨b, hb, rfl⟩ := List.mem_map.mp hbatch
  have hm : req.ref ∈ s.history.served.flatMap fun b => b.1.map Request.ref :=
    List.mem_flatMap.mpr ⟨b, hb, List.mem_map_of_mem hr⟩
  have hpos := List.count_pos_iff.mpr hm
  rw [h.served, List.count_eq_zero_of_not_mem hnot, Nat.zero_add] at hpos
  obtain ⟨⟨ref, o⟩, hro, rfl⟩ := List.mem_map.mp (List.count_pos_iff.mp hpos)
  exact ⟨o, hro⟩

/-- By the time a batch is counted, all its futures are finished. -/
theorem accounting_finished (h : s.Books m) {batch : List (Request K)}
    (hw : s.worker = .accounting batch) {req : Request K} (hr : req ∈ batch) :
    ∃ o, s.futures req.ref = some (.finished o) ∧ OwnOutcome s.history.served req.ref o := by
  have hb : batch ∈ s.history.served.map Prod.fst := by
    rw [h.completed, hw]
    exact List.mem_append_right _ (List.mem_singleton_self _)
  have hnot : req.ref ∉ s.worker.unresolved.map Request.ref := by
    rw [hw]
    exact List.not_mem_nil
  obtain ⟨o, ho⟩ := h.resolved_of_served hb hr hnot
  exact ⟨o, h.finished _ ho⟩

/-- The count of a batch raises only where an exception of a model run is false as a condition. -/
theorem tokens_error (h : s.Books m) {batch : List (Request K)} (hw : s.worker = .accounting batch)
    {e : PyException} (he : s.futures.tokens batch = .error e) :
    e = noResult ∧ ∃ b ∈ s.history.served, ∃ e', b.2 = .error e' ∧ e'.truth = false := by
  have hfin : ∀ req ∈ batch, ∃ o, s.futures req.ref = some (.finished o) := fun _ hr =>
    (h.accounting_finished hw hr).imp fun _ ho => ho.1
  obtain ⟨hnone, req, hr, e', hf, htruth⟩ := Futures.tokens_error hfin he
  obtain ⟨o, ho, hown⟩ := h.accounting_finished hw hr
  obtain rfl := Future.finished.inj (Option.some.inj (hf.symm.trans ho))
  obtain ⟨b, hb, hraised⟩ := hown.error
  exact ⟨hnone, b, hb, e', hraised, htruth⟩

/-- The batch is counted. -/
theorem account [Add K] (h : s.Books m) {batch : List (Request K)} {batchMs : K} {w : WorkerPoint K}
    (hw : s.worker = .accounting batch) (hcur : w.current = []) (hunres : w.unresolved = [])
    (hflight : w.inFlight = []) (hpoint : w.Ok m s.history.served) :
    ({ s with
      scheduler := (s.scheduler.account s.futures batch batchMs).2
      worker := w
      history.completed := s.history.completed ++ [batch] } : SchedulerSystem K).Books m := by
  refine { h with limit := ?_, places := ?_, served := ?_, point := hpoint, completed := ?_
                  processed := ?_ }
  · simpa using h.limit
  · have hcur' : w.current = s.worker.current := by
      rw [hw, hcur]
      rfl
    simpa only [refsAt, Scheduler.account_queue, hcur'] using h.places
  · have hunres' : w.unresolved = s.worker.unresolved := by
      rw [hw, hunres]
      rfl
    simpa only [refsAt, hunres'] using h.served
  · have hc := h.completed
    rw [hw] at hc
    rw [hflight, List.append_nil]
    exact hc
  · simp [h.processed]

section Queue

variable [LinearOrder K]

theorem push (h : s.Books m) {req : Request K} (hs : s.push req = some s') : s'.Books m := by
  unfold SchedulerSystem.push at hs
  split_ifs at hs with hmem
  obtain rfl := Option.some.inj hs
  refine h.move rfl rfl rfl rfl (fun ref => ?_) rfl rfl h.point
  exact congrArg (· + (s.refsAt .currentBatch).count ref) (count_push hmem ref)

/-- The worker takes a request into its batch, waits on or goes on without one. -/
theorem popStep (h : s.Books m) {expired : Bool} {w₀ : WorkerPoint K}
    {cont : Option (Request K) → WorkerPoint K} (hw : s.worker = w₀)
    (hsome : ∀ req, (cont (some req)).current = w₀.current ++ [req])
    (hnone : (cont none).current = w₀.current) (hunres : ∀ r, (cont r).unresolved = w₀.unresolved)
    (hflight : ∀ r, (cont r).inFlight = w₀.inFlight)
    (hpoint : ∀ r, (cont r).Ok m s.history.served) : (s.popStep expired cont).Books m := by
  subst hw
  unfold SchedulerSystem.popStep
  split
  · rename_i r q hp
    refine h.move rfl rfl rfl rfl (fun ref => ?_) (hunres r) (hflight r) (hpoint r)
    have hcur : (cont r).current = s.worker.current ++ r.toList := by
      rcases r with _ | req
      · simp [hnone]
      · simp [hsome]
    have hheap := count_pop hp ref
    simp only [refsAt, hcur, List.map_append, List.count_append]
    omega
  · exact h

end Queue

variable [Field K] [LinearOrder K]

theorem submit (h : s.Books m) {now : K} {req : Request K} (hnew : req.ref ∉ s.submitted) :
    (s.submit now req).Books m := by
  have hacc : req.ref ∉ s.history.accepted := fun hr => hnew (List.mem_append_left _ hr)
  unfold SchedulerSystem.submit
  simp only
  split_ifs
  · refine { h with distinct := ?_, places := ?_, pending := ?_, finished := ?_ }
    · exact nodup_accepted h.distinct hnew
    · intro ref
      have hc := h.places ref
      simp only [refsAt, List.map_cons, List.count_append, List.count_cons, List.count_nil] at hc ⊢
      omega
    · intro ref hr hres
      rcases List.mem_append.mp hr with hr | hr
      · have hne : ref ≠ req.ref := fun he => hacc (he ▸ hr)
        simpa only [Function.update_of_ne hne] using h.pending ref hr hres
      · obtain rfl := List.mem_singleton.mp hr
        exact Function.update_self ..
    · intro r hr
      have hne : r.1 ≠ req.ref := fun he =>
        hacc (he ▸ h.mem_accepted (p := .resolved) (List.mem_map_of_mem hr))
      simpa only [Function.update_of_ne hne] using h.finished r hr
  · exact { h with distinct := nodup_rejected h.distinct hnew _ }

theorem init (maxBatchSize : ℕ) (rate burst now : K) :
    (machine maxBatchSize rate burst now).init.Books maxBatchSize := by
  constructor <;> simp [machine, Scheduler.init, submitted, refsAt, WorkerPoint.current,
    WorkerPoint.unresolved, WorkerPoint.inFlight, WorkerPoint.Ok]

theorem workerStep (hm : 1 ≤ m) (h : s.Books m) {a : WorkerAction K}
    (hok : s.allowed (.worker a) = true) (hs : WorkerStepped s a s') : s'.Books m := by
  cases hs with
  | started hw => exact (h.setRunning true).setWorker hw rfl rfl rfl trivial
  | checkedRunning hw => split_ifs <;> exact h.setWorker hw rfl rfl rfl trivial
  | poppedFirst hw =>
    apply h.popStep hw
    · exact fun _ => rfl
    · rfl
    · exact fun r => by cases r <;> rfl
    · exact fun r => by cases r <;> rfl
    · rintro (_ | _)
      · trivial
      · exact ⟨le_rfl, hm⟩
  | checkedFull hw =>
    obtain ⟨hpos, hle⟩ := h.point_at hw
    split_ifs with hlt
    · exact h.setWorker hw rfl rfl rfl ⟨hpos, h.limit ▸ hlt.1⟩
    · exact h.setWorker hw rfl rfl rfl ⟨hpos, hle⟩
  | @poppedMore batch expired hw =>
    apply h.popStep hw
    · exact fun _ => rfl
    · rfl
    · exact fun r => by cases r <;> rfl
    · exact fun r => by cases r <;> rfl
    · obtain ⟨hpos, hlt⟩ := h.point_at hw
      rintro (_ | more)
      · exact ⟨hpos, hlt.le⟩
      · show 1 ≤ (batch ++ [more]).length ∧ (batch ++ [more]).length ≤ m
        rw [List.length_append, List.length_singleton]
        exact ⟨Nat.le_add_left _ _, hlt⟩
  | @ran batch r hw =>
    rcases r with e | results
    · exact h.serve hw rfl rfl rfl ⟨by simp, List.suffix_rfl⟩
    · have hlen : results.length = batch.length := by simpa [allowed, hw] using hok
      exact h.serve hw (List.map_fst_zip hlen.ge) rfl rfl ⟨results, by simp, List.suffix_rfl⟩
  | delivered hw => exact h.setWorker hw rfl rfl rfl trivial
  | @delivering batch req result todo hw =>
    obtain ⟨results, hb, hsuf⟩ := h.point_at hw
    have hmem := hsuf.subset (List.mem_cons_self ..)
    obtain ⟨i, hi⟩ := List.mem_iff_getElem?.mp hmem
    obtain ⟨hreq, hresult⟩ := List.getElem?_zip_eq_some.mp hi
    refine h.resolveStep hw rfl rfl rfl rfl ⟨results, hb, (List.suffix_cons _ _).trans hsuf⟩ ?_
    exact ⟨_, hb, i, by simp [hreq], by simp [outcomeAt, hresult]⟩
  | failed hw => exact h.setWorker hw rfl rfl rfl trivial
  | failing hw =>
    obtain ⟨hb, hsuf⟩ := h.point_at hw
    obtain ⟨i, hi⟩ := List.mem_iff_getElem?.mp (hsuf.subset (List.mem_cons_self ..))
    refine h.resolveStep hw rfl rfl rfl rfl ⟨hb, (List.suffix_cons _ _).trans hsuf⟩ ?_
    exact ⟨_, hb, i, by simp [hi], rfl⟩
  | @accounted batch batchMs hw =>
    rcases hacc : (s.scheduler.account s.futures batch batchMs).1 with e | u
    · exact h.account hw rfl rfl rfl (h.tokens_error hw (Scheduler.account_error _ _ _ _ hacc))
    · exact h.account hw rfl rfl rfl trivial

theorem step (hm : 1 ≤ m) (h : s.Books m) {e : SchedulerEvent K} (hok : s.allowed e = true)
    (hs : s.step e = some s') : s'.Books m := by
  cases e with
  | submit now req =>
    obtain rfl := Option.some.inj hs
    exact h.submit (by simpa [allowed] using hok)
  | push req => exact h.push hs
  | cancel ref => cases hok
  | stop =>
    obtain rfl := Option.some.inj hs
    exact h.setRunning false
  | worker a => exact h.workerStep hm hok (workerStepped hs)

end Books
end SchedulerSystem
end InferenceCluster
