import InferenceCluster.Sanity.Scheduler

/-! The deliveries of the worker to futures that their holders may cancel at any time: the
served batches are settled, but for one that is in process or has taken the worker down. -/

namespace InferenceCluster

variable {K : Type}

/-- A batch whose model run is over, and what the run returned or raised. -/
abbrev Served (K : Type) := List (Request K) × Except PyException (List BatchResult)

namespace Served

/-- What the requests of the batch are to get. -/
def due : Served K → List (Request K × Outcome)
  | (batch, .ok results) => (batch.zip results).map fun p => (p.1, .ok p.2)
  | (batch, .error e) => batch.map fun req => (req, .error e)

/-- The tokens that the results report. -/
def reported : Served K → ℕ
  | (_, .ok results) => (results.map BatchResult.generatedTokens).sum
  | (_, .error _) => 0

structure Fits (b : Served K) : Prop where
  nonempty : b.1 ≠ []
  length : ∀ results, b.2 = .ok results → results.length = b.1.length

theorem Fits.map_fst_due {b : Served K} (h : b.Fits) : b.due.map Prod.fst = b.1 := by
  rcases b with ⟨batch, e | results⟩
  · simp [due, Function.comp_def]
  · have hlen := h.length results rfl
    simp only [due, List.map_map, Function.comp_def]
    exact List.map_fst_zip hlen.ge

theorem Fits.exists_due {b : Served K} (h : b.Fits) {req : Request K} (hr : req ∈ b.1) :
    ∃ o, (req, o) ∈ b.due := by
  rw [← h.map_fst_due] at hr
  obtain ⟨⟨req', o⟩, hp, rfl⟩ := List.mem_map.mp hr
  exact ⟨o, hp⟩

end Served

/-! ### Futures over time -/

namespace Futures

variable {fs fs' : Futures} {ref : ℕ}

/-- Still to be resolved, whether or not this is possible. -/
def Unresolved (fs : Futures) (ref : ℕ) : Prop :=
  fs ref = some .pending ∨ fs ref = some .cancelled

/-- `set_result` and `set_exception` raise. -/
def Closed (fs : Futures) (ref : ℕ) : Prop :=
  fs ref = some .cancelled ∨ ∃ o, fs ref = some (.finished o)

def Delivered (fs : Futures) (ps : List (Request K × Outcome)) : Prop :=
  ∀ p ∈ ps, fs p.1.ref = some (.finished p.2)

/-- Of the outcomes that are due, `todo` are left to deliver. -/
def Midway (fs : Futures) (due todo : List (Request K × Outcome)) : Prop :=
  ∃ done, due = done ++ todo ∧ fs.Delivered done ∧ ∀ p ∈ todo, fs.Unresolved p.1.ref

/-- A delivery has met a cancelled future. -/
def Interrupted (fs : Futures) (batch : List (Request K)) : Prop :=
  (∃ req ∈ batch, fs req.ref = some .cancelled) ∧ ∃ req rest, batch = req :: rest ∧ fs.Closed req.ref

/-- Neither the deliveries of a batch nor its count have raised. -/
structure Settled (fs : Futures) (b : Served K) : Prop where
  delivered : fs.Delivered b.due
  truth : ∀ e, b.2 = .error e → e.truth = true

/-- A future of the batch is cancelled, or its exception is false as a condition. -/
def Ruined (fs : Futures) (b : Served K) : Prop :=
  (∃ req ∈ b.1, fs req.ref = some .cancelled) ∨ ∃ e, b.2 = .error e ∧ e.truth = false

/-- What other threads make of the futures: new ones appear, old ones are cancelled. -/
def Evolve (fs fs' : Futures) : Prop :=
  ∀ ref, fs ref ≠ none → fs' ref = fs ref ∨ fs' ref = (fs ref).map Future.cancel

theorem Evolve.refl (fs : Futures) : fs.Evolve fs := fun _ _ => .inl rfl

theorem Evolve.finished (h : fs.Evolve fs') {o : Outcome} (hf : fs ref = some (.finished o)) :
    fs' ref = some (.finished o) := by
  rcases h ref (by simp [hf]) with he | he <;> simp [he, hf, Future.cancel]

theorem Evolve.cancelled (h : fs.Evolve fs') (hf : fs ref = some .cancelled) :
    fs' ref = some .cancelled := by
  rcases h ref (by simp [hf]) with he | he <;> simp [he, hf, Future.cancel]

theorem Evolve.unresolved (h : fs.Evolve fs') (hf : fs.Unresolved ref) : fs'.Unresolved ref := by
  rcases hf with hf | hf
  · rcases h ref (by simp [hf]) with he | he
    · exact .inl (he.trans hf)
    · exact .inr (by simp [he, hf, Future.cancel])
  · exact .inr (h.cancelled hf)

theorem Evolve.delivered (h : fs.Evolve fs') {ps : List (Request K × Outcome)}
    (hd : fs.Delivered ps) : fs'.Delivered ps :=
  fun p hp => h.finished (hd p hp)

theorem Evolve.midway (h : fs.Evolve fs') {due todo : List (Request K × Outcome)}
    (hm : fs.Midway due todo) : fs'.Midway due todo := by
  obtain ⟨done, hdue, hd, hu⟩ := hm
  exact ⟨done, hdue, h.delivered hd, fun p hp => h.unresolved (hu p hp)⟩

theorem Evolve.interrupted (h : fs.Evolve fs') {batch : List (Request K)}
    (hi : fs.Interrupted batch) : fs'.Interrupted batch := by
  obtain ⟨⟨req, hr, hc⟩, first, rest, hb, hclosed⟩ := hi
  refine ⟨⟨req, hr, h.cancelled hc⟩, first, rest, hb, ?_⟩
  rcases hclosed with hc | ⟨o, hf⟩
  · exact .inl (h.cancelled hc)
  · exact .inr ⟨o, h.finished hf⟩

theorem Evolve.settled (h : fs.Evolve fs') {b : Served K} (hs : fs.Settled b) : fs'.Settled b :=
  { hs with delivered := h.delivered hs.delivered }

theorem Evolve.ruined (h : fs.Evolve fs') {b : Served K} (hr : fs.Ruined b) : fs'.Ruined b :=
  hr.imp_left fun ⟨req, hr, hc⟩ => ⟨req, hr, h.cancelled hc⟩

/-! One delivery. -/

theorem resolve_pending (h : fs ref = some .pending) (o : Outcome) :
    fs.resolve ref o = .ok (Function.update fs ref (some (.finished o))) := by
  simp [resolve, h, Future.resolve, Except.map]

theorem resolve_closed (h : fs.Closed ref) (o : Outcome) : ∃ e, fs.resolve ref o = .error e := by
  rcases h with h | ⟨o', h⟩ <;> exact ⟨_, by simp [resolve, h, Future.resolve, Except.map]; rfl⟩

theorem Delivered.update {ps : List (Request K × Outcome)} (h : fs.Delivered ps)
    (hp : fs ref = some .pending) (f : Option Future) :
    Delivered (Function.update fs ref f) ps := by
  intro p hmem
  have hne : p.1.ref ≠ ref := by
    intro he
    have hf := h p hmem
    rw [he, hp] at hf
    cases hf
  rw [Function.update_of_ne hne, h p hmem]

theorem Midway.next {due todo : List (Request K × Outcome)} {p : Request K × Outcome}
    (h : fs.Midway due (p :: todo)) (hnodup : (due.map fun q => q.1.ref).Nodup)
    (hp : fs p.1.ref = some .pending) :
    Midway (Function.update fs p.1.ref (some (.finished p.2))) due todo := by
  obtain ⟨done, rfl, hd, hu⟩ := h
  refine ⟨done ++ [p], by simp, fun q hq => ?_, fun q hq => ?_⟩
  · rcases List.mem_append.mp hq with hq | hq
    · exact hd.update hp _ q hq
    · obtain rfl := List.mem_singleton.mp hq
      exact Function.update_self ..
  · have hne : q.1.ref ≠ p.1.ref := by
      intro he
      rw [List.map_append, List.map_cons] at hnodup
      have hnot := (List.nodup_cons.mp (List.nodup_append.mp hnodup).2.1).1
      exact hnot (he ▸ List.mem_map_of_mem (f := fun q => q.1.ref) hq)
    have hq' := hu q (List.mem_cons_of_mem _ hq)
    simpa only [Unresolved, Function.update_of_ne hne] using hq'

theorem Midway.delivered {due : List (Request K × Outcome)} (h : fs.Midway due []) :
    fs.Delivered due := by
  obtain ⟨done, rfl, hd, -⟩ := h
  rwa [List.append_nil]

/-- A delivery that raises has met a cancelled future, and the first future of the batch is
cancelled or finished by then. -/
theorem Midway.interrupted {due todo : List (Request K × Outcome)} {p : Request K × Outcome}
    (h : fs.Midway due (p :: todo)) (hc : fs p.1.ref = some .cancelled) :
    fs.Interrupted (due.map Prod.fst) := by
  obtain ⟨done, rfl, hd, -⟩ := h
  refine ⟨⟨p.1, by simp, hc⟩, ?_⟩
  cases done with
  | nil => exact ⟨p.1, _, rfl, .inl hc⟩
  | cons d done => exact ⟨d.1, _, rfl, .inr ⟨d.2, hd d List.mem_cons_self⟩⟩

end Futures

/-! ### The count of a batch -/

theorem Futures.results_delivered {fs : Futures} {batch : List (Request K)}
    {results : List BatchResult} (hlen : results.length = batch.length)
    (h : fs.Delivered (Served.due (batch, .ok results))) :
    fs.results batch = .ok (results.map some) := by
  induction batch generalizing results with
  | nil =>
    obtain rfl := List.length_eq_zero_iff.mp hlen
    rfl
  | cons req batch ih =>
    obtain ⟨result, results, rfl⟩ := List.exists_cons_of_length_eq_add_one hlen
    have hreq := h (req, .ok result) List.mem_cons_self
    have hrest := ih (Nat.succ.inj hlen) fun p hp => h p (List.mem_cons_of_mem _ hp)
    simp only [Futures.results, hreq, Future.counted, Outcome.failed, Outcome.result, hrest]
    rfl

theorem Futures.generatedTokens_some (results : List BatchResult) :
    generatedTokens (results.map some) = .ok (results.map BatchResult.generatedTokens).sum := by
  induction results with
  | nil => rfl
  | cons r results ih =>
    rw [List.map_cons, generatedTokens, ih]
    rfl

/-- An exception is left out of the list of results, or `None` stands for it. -/
theorem Futures.results_failed {fs : Futures} {batch : List (Request K)} {e : PyException}
    (h : fs.Delivered (Served.due (batch, .error e))) :
    fs.results batch = .ok (if e.truth then [] else batch.map fun _ => none) := by
  induction batch with
  | nil => simp [Futures.results]
  | cons req batch ih =>
    have hreq := h (req, .error e) List.mem_cons_self
    have hrest := ih fun p hp => h p (List.mem_cons_of_mem _ hp)
    cases ht : e.truth <;>
      simp [Futures.results, hreq, Future.counted, Outcome.failed, Outcome.result, hrest, ht] <;> rfl

/-- A batch whose outcomes are delivered is counted with the tokens it reports, unless its
exception is false as a condition. -/
theorem Futures.tokens_cases {fs : Futures} {b : Served K} (hfits : b.Fits)
    (h : fs.Delivered b.due) :
    (fs.Settled b ∧ fs.tokens b.1 = .ok b.reported) ∨
      ∃ e, b.2 = .error e ∧ e.truth = false ∧ fs.tokens b.1 = .error noResult := by
  rcases b with ⟨batch, e | results⟩
  · have hresults := results_failed h
    cases he : e.truth with
    | true =>
      refine .inl ⟨⟨h, ?_⟩, ?_⟩
      · rintro e' he'
        rwa [← Except.error.inj he']
      · rw [tokens, hresults, he]
        rfl
    | false =>
      obtain ⟨req, rest, rfl⟩ := List.exists_cons_of_ne_nil hfits.nonempty
      refine .inr ⟨e, rfl, he, ?_⟩
      rw [tokens, hresults, he]
      rfl
  · refine .inl ⟨⟨h, fun e he => by cases he⟩, ?_⟩
    rw [tokens, results_delivered (hfits.length results rfl) h]
    exact generatedTokens_some results

/-! ### The invariant -/

namespace WorkerPoint

/-- The requests of the batch that the worker collects. -/
def gathered : WorkerPoint K → List (Request K)
  | .collecting batch | .waitMore batch | .runBatch batch => batch
  | .notStarted | .loopTop | .waitFirst | .delivering _ _ | .failing _ _ _ | .accounting _
  | .exited | .crashed _ => []

/-- `_process_batch` has raised. -/
def down : WorkerPoint K → Bool
  | .crashed _ => true
  | .notStarted | .loopTop | .waitFirst | .collecting _ | .waitMore _ | .runBatch _
  | .delivering _ _ | .failing _ _ _ | .accounting _ | .exited => false

/-- What holds at the worker's point of the batches that are served and not settled. -/
def Stands (fs : Futures) (last : List (Served K)) : WorkerPoint K → Prop
  | .notStarted | .loopTop | .waitFirst | .exited => last = []
  | .collecting batch | .waitMore batch | .runBatch batch => last = [] ∧ batch ≠ []
  | .delivering batch todo => ∃ results, last = [(batch, .ok results)] ∧
    fs.Midway (Served.due (batch, .ok results)) (todo.map fun p => (p.1, .ok p.2))
  | .failing batch e todo =>
    (last = [(batch, .error e)] ∧
      fs.Midway (Served.due (batch, .error e)) (todo.map fun req => (req, .error e))) ∨
    ∃ results, last = [(batch, .ok results)] ∧ todo = batch ∧ fs.Interrupted batch
  | .accounting batch => ∃ r, last = [(batch, r)] ∧ fs.Delivered (Served.due (batch, r))
  | .crashed _ => ∃ b, last = [b] ∧ fs.Ruined b

theorem Stands.evolve {fs fs' : Futures} {last : List (Served K)} {w : WorkerPoint K}
    (hs : w.Stands fs last) (h : fs.Evolve fs') : w.Stands fs' last := by
  cases w with
  | delivering batch todo =>
    obtain ⟨results, hl, hm⟩ := hs
    exact ⟨results, hl, h.midway hm⟩
  | failing batch e todo =>
    rcases hs with ⟨hl, hm⟩ | ⟨results, hl, ht, hi⟩
    · exact .inl ⟨hl, h.midway hm⟩
    · exact .inr ⟨results, hl, ht, h.interrupted hi⟩
  | accounting batch =>
    obtain ⟨r, hl, hd⟩ := hs
    exact ⟨r, hl, h.delivered hd⟩
  | crashed e =>
    obtain ⟨b, hl, hr⟩ := hs
    exact ⟨b, hl, h.ruined hr⟩
  | _ => exact hs

end WorkerPoint

namespace SchedulerSystem

/-- The requests of the batches that were served. -/
def servedRefs (s : SchedulerSystem K) : List ℕ :=
  s.history.served.flatMap fun b => b.1.map Request.ref

structure Deliveries (s : SchedulerSystem K) : Prop where
  distinct : s.submitted.Nodup
  places : ∀ ref, s.history.accepted.count ref =
    (s.refsAt .submitting).count ref + (s.refsAt .heap).count ref +
      (s.worker.gathered.map Request.ref).count ref + s.servedRefs.count ref
  unknown : ∀ ref ∉ s.history.accepted, s.futures ref = none
  waiting : ∀ ref ∈ s.history.accepted, ref ∉ s.servedRefs → s.futures.Unresolved ref
  fits : ∀ b ∈ s.history.served, Served.Fits b
  point : ∃ through last, s.history.served = through ++ last ∧
    (∀ b ∈ through, s.futures.Settled b) ∧ s.worker.Stands s.futures last

namespace Deliveries

variable {s s' : SchedulerSystem K}

theorem point_at (h : s.Deliveries) {w : WorkerPoint K} (hw : s.worker = w) :
    ∃ through last, s.history.served = through ++ last ∧
      (∀ b ∈ through, s.futures.Settled b) ∧ w.Stands s.futures last :=
  hw ▸ h.point

theorem servedRefs_nodup (h : s.Deliveries) : s.servedRefs.Nodup := by
  apply List.nodup_iff_count_le_one.mpr
  intro ref
  have hle := List.nodup_iff_count_le_one.mp (List.nodup_append.mp h.distinct).1 ref
  have hc := h.places ref
  omega

theorem due_nodup (h : s.Deliveries) {b : Served K} (hb : b ∈ s.history.served) :
    (b.due.map fun p => p.1.ref).Nodup := by
  have hsub := (List.nodup_flatMap.mp h.servedRefs_nodup).1 b hb
  rwa [← (h.fits b hb).map_fst_due, List.map_map] at hsub

theorem mem_accepted (h : s.Deliveries) {req : Request K} (hr : req ∈ s.worker.gathered) :
    req.ref ∈ s.history.accepted ∧ req.ref ∉ s.servedRefs := by
  have hpos := List.count_pos_iff.mpr (List.mem_map_of_mem (f := Request.ref) hr)
  have hle := List.nodup_iff_count_le_one.mp (List.nodup_append.mp h.distinct).1 req.ref
  have hc := h.places req.ref
  exact ⟨List.count_pos_iff.mp (by omega), List.count_eq_zero.mp (by omega)⟩

/-- Other threads, and sections of the worker that serve, deliver and count nothing. -/
theorem move (h : s.Deliveries) (hfut : s.futures.Evolve s'.futures)
    (hhist : s'.history = s.history)
    (hunknown : ∀ ref ∉ s.history.accepted, s'.futures ref = none)
    (hcount : ∀ ref, (s'.refsAt .submitting).count ref + (s'.refsAt .heap).count ref +
        (s'.worker.gathered.map Request.ref).count ref =
      (s.refsAt .submitting).count ref + (s.refsAt .heap).count ref +
        (s.worker.gathered.map Request.ref).count ref)
    (hpoint : ∀ last, s.worker.Stands s'.futures last → s'.worker.Stands s'.futures last) :
    s'.Deliveries := by
  have hrefs : s'.servedRefs = s.servedRefs := by
    rw [servedRefs, hhist, servedRefs]
  constructor
  · simpa only [submitted, hhist] using h.distinct
  · intro ref
    rw [hhist, hrefs, h.places ref, ← hcount ref]
  · rwa [hhist]
  · intro ref hr hs
    rw [hhist] at hr
    rw [hrefs] at hs
    exact hfut.unresolved (h.waiting ref hr hs)
  · rw [hhist]
    exact h.fits
  · obtain ⟨through, last, hserved, hsettled, hstands⟩ := h.point
    rw [hhist]
    exact ⟨through, last, hserved, fun b hb => hfut.settled (hsettled b hb),
      hpoint last (hstands.evolve hfut)⟩

/-- A section that changes no future. -/
theorem stay (h : s.Deliveries) (hfut : s'.futures = s.futures) (hhist : s'.history = s.history)
    (hcount : ∀ ref, (s'.refsAt .submitting).count ref + (s'.refsAt .heap).count ref +
        (s'.worker.gathered.map Request.ref).count ref =
      (s.refsAt .submitting).count ref + (s.refsAt .heap).count ref +
        (s.worker.gathered.map Request.ref).count ref)
    (hpoint : ∀ last, s.worker.Stands s.futures last → s'.worker.Stands s.futures last) :
    s'.Deliveries := by
  refine h.move ?_ hhist ?_ hcount ?_
  · exact hfut ▸ .refl _
  · exact hfut ▸ h.unknown
  · exact hfut ▸ hpoint

theorem setRunning (h : s.Deliveries) (b : Bool) :
    ({ s with scheduler.running := b } : SchedulerSystem K).Deliveries :=
  h.stay rfl rfl (fun _ => rfl) fun _ hl => hl

/-- A section that only moves the worker on. -/
theorem setWorker (h : s.Deliveries) {w₀ w : WorkerPoint K} (hw : s.worker = w₀)
    (hgathered : w.gathered = w₀.gathered)
    (hpoint : ∀ last, w₀.Stands s.futures last → w.Stands s.futures last) :
    ({ s with worker := w } : SchedulerSystem K).Deliveries := by
  subst hw
  exact h.stay rfl rfl (fun ref => by simp only [refsAt, hgathered]) hpoint

/-- A call of the worker raises. -/
theorem raise (h : s.Deliveries) {through last : List (Served K)} {w₀ w : WorkerPoint K}
    (hw : s.worker = w₀) (hserved : s.history.served = through ++ last)
    (hsettled : ∀ c ∈ through, s.futures.Settled c) (hgathered : w.gathered = w₀.gathered)
    (hpoint : w.Stands s.futures last) :
    ({ s with worker := w } : SchedulerSystem K).Deliveries := by
  subst hw
  refine { h with places := ?_, point := ⟨through, last, hserved, hsettled, hpoint⟩ }
  simpa only [refsAt, servedRefs, hgathered] using h.places

/-- One future of the batch in process is resolved. -/
theorem deliver (h : s.Deliveries) {through : List (Served K)} {b : Served K} {req : Request K}
    {o : Outcome} {todo : List (Request K × Outcome)} {done : WorkerPoint K}
    (hserved : s.history.served = through ++ [b]) (hsettled : ∀ c ∈ through, s.futures.Settled c)
    (hmid : s.futures.Midway b.due ((req, o) :: todo)) (hpend : s.futures req.ref = some .pending)
    (hgathered : done.gathered = s.worker.gathered)
    (hpoint : ∀ fs : Futures, fs.Midway b.due todo → done.Stands fs [b]) :
    ({ s with
      futures := Function.update s.futures req.ref (some (.finished o))
      worker := done
      history.resolutions := s.history.resolutions ++ [(req.ref, o)] } :
      SchedulerSystem K).Deliveries := by
  have hb : b ∈ s.history.served := by simp [hserved]
  have hreq : req.ref ∈ s.servedRefs := by
    obtain ⟨done', hdue, -⟩ := hmid
    have hmem : req ∈ b.due.map Prod.fst := by simp [hdue]
    rw [(h.fits b hb).map_fst_due] at hmem
    exact List.mem_flatMap.mpr ⟨b, hb, List.mem_map_of_mem hmem⟩
  refine { h with places := ?_, unknown := ?_, waiting := ?_, point := ?_ }
  · simpa only [refsAt, servedRefs, hgathered] using h.places
  · intro ref hr
    have hne : ref ≠ req.ref := by
      rintro rfl
      rw [h.unknown _ hr] at hpend
      cases hpend
    simpa only [Function.update_of_ne hne] using h.unknown ref hr
  · intro ref hr hs
    have hne : ref ≠ req.ref := fun he => hs (he ▸ hreq)
    simpa only [Futures.Unresolved, Function.update_of_ne hne] using h.waiting ref hr hs
  · refine ⟨through, [b], hserved, fun c hc => ?_, hpoint _ (hmid.next (h.due_nodup hb) hpend)⟩
    exact { hsettled c hc with delivered := (hsettled c hc).delivered.update hpend _ }

/-- The next future of the batch in process is resolved, or it is cancelled and the call
raises. -/
theorem resolveStep (h : s.Deliveries) {through : List (Served K)} {b : Served K} {req : Request K}
    {o : Outcome} {todo : List (Request K × Outcome)} {done : WorkerPoint K}
    {w₀ : WorkerPoint K} {raised : PyException → WorkerPoint K} (hw : s.worker = w₀)
    (hserved : s.history.served = through ++ [b]) (hsettled : ∀ c ∈ through, s.futures.Settled c)
    (hmid : s.futures.Midway b.due ((req, o) :: todo)) (hdone : done.gathered = w₀.gathered)
    (hraised : ∀ e, (raised e).gathered = w₀.gathered)
    (hpoint : ∀ fs : Futures, fs.Midway b.due todo → done.Stands fs [b])
    (hpoint' : ∀ e, s.futures.Interrupted b.1 → (raised e).Stands s.futures [b]) :
    (s.resolveStep req o done raised).Deliveries := by
  subst hw
  have hb : b ∈ s.history.served := by simp [hserved]
  unfold SchedulerSystem.resolveStep
  rcases hmid.choose_spec.2.2 (req, o) List.mem_cons_self with hpend | hcancelled
  · rw [Futures.resolve_pending hpend]
    exact h.deliver hserved hsettled hmid hpend hdone hpoint
  · obtain ⟨e, he⟩ := Futures.resolve_closed (.inl hcancelled) o
    rw [he]
    have hinter := hmid.interrupted hcancelled
    rw [(h.fits b hb).map_fst_due] at hinter
    exact h.raise rfl hserved hsettled (hraised e) (hpoint' e hinter)

/-- The model run of a batch is over. -/
theorem serve (h : s.Deliveries) {batch : List (Request K)}
    {r : Except PyException (List BatchResult)} {w : WorkerPoint K}
    (hw : s.worker = .runBatch batch) (hfits : Served.Fits (batch, r)) (hgathered : w.gathered = [])
    (hpoint : s.futures.Midway (Served.due (batch, r)) (Served.due (batch, r)) →
      w.Stands s.futures [(batch, r)]) :
    ({ s with worker := w, history.served := s.history.served ++ [(batch, r)] } :
      SchedulerSystem K).Deliveries := by
  have hgathered' : s.worker.gathered = batch := by
    rw [hw]
    rfl
  have hrefs : ({ s with worker := w, history.served := s.history.served ++ [(batch, r)] } :
      SchedulerSystem K).servedRefs = s.servedRefs ++ batch.map Request.ref := by
    simp [servedRefs]
  refine { h with places := ?_, waiting := ?_, fits := ?_, point := ?_ }
  · intro ref
    have hc := h.places ref
    rw [hgathered'] at hc
    rw [hrefs, List.count_append, hgathered]
    simp only [refsAt, List.map_nil, List.count_nil] at hc ⊢
    omega
  · intro ref hr hs
    rw [hrefs, List.mem_append, not_or] at hs
    exact h.waiting ref hr hs.1
  · intro b hb
    rcases List.mem_append.mp hb with hb | hb
    · exact h.fits b hb
    · obtain rfl := List.mem_singleton.mp hb
      exact hfits
  · obtain ⟨through, last, hserved, hsettled, rfl, -⟩ := h.point_at hw
    rw [List.append_nil] at hserved
    refine ⟨through, [(batch, r)], by simp [hserved], hsettled, hpoint ⟨[], rfl, ?_, ?_⟩⟩
    · exact fun p hp => absurd hp List.not_mem_nil
    · intro p hp
      have hmem : p.1 ∈ (Served.due (batch, r)).map Prod.fst := List.mem_map_of_mem hp
      rw [hfits.map_fst_due] at hmem
      obtain ⟨hacc, hnot⟩ := h.mem_accepted (hgathered'.symm ▸ hmem)
      exact h.waiting _ hacc hnot

/-- The batch is counted, or its count raises. -/
theorem account [Add K] (h : s.Deliveries) {batch : List (Request K)} {batchMs : K}
    (hw : s.worker = .accounting batch) :
    ({ s with
      scheduler := (s.scheduler.account s.futures batch batchMs).2
      worker := match (s.scheduler.account s.futures batch batchMs).1 with
        | .ok () => .loopTop
        | .error e => .crashed e
      history.completed := s.history.completed ++ [batch] } : SchedulerSystem K).Deliveries := by
  obtain ⟨through, last, hserved, hsettled, r, rfl, hdel⟩ := h.point_at hw
  have hb : (batch, r) ∈ s.history.served := by simp [hserved]
  have hgathered : s.worker.gathered = [] := by
    rw [hw]
    rfl
  have hcount := h.places
  rw [hgathered] at hcount
  rcases Futures.tokens_cases (h.fits _ hb) hdel with ⟨hset, ht⟩ | ⟨e, he, htruth, ht⟩
  · simp only [Scheduler.account, ht]
    refine { h with places := hcount, point := ⟨through ++ [(batch, r)], [], ?_, ?_, rfl⟩ }
    · simpa using hserved
    · intro b hb
      rcases List.mem_append.mp hb with hb | hb
      · exact hsettled b hb
      · obtain rfl := List.mem_singleton.mp hb
        exact hset
  · simp only [Scheduler.account, ht]
    refine { h with places := hcount, point := ⟨through, [(batch, r)], hserved, hsettled, ?_⟩ }
    exact ⟨_, rfl, .inr ⟨e, he, htruth⟩⟩

section Queue

variable [LinearOrder K]

theorem push (h : s.Deliveries) {req : Request K} (hs : s.push req = some s') :
    s'.Deliveries := by
  unfold SchedulerSystem.push at hs
  split_ifs at hs with hmem
  obtain rfl := Option.some.inj hs
  refine h.stay rfl rfl (fun ref => ?_) fun _ hl => hl
  exact congrArg (· + (s.worker.gathered.map Request.ref).count ref) (count_push hmem ref)

theorem popStep (h : s.Deliveries) {expired : Bool} {w₀ : WorkerPoint K}
    {cont : Option (Request K) → WorkerPoint K} (hw : s.worker = w₀)
    (hsome : ∀ req, (cont (some req)).gathered = w₀.gathered ++ [req])
    (hnone : (cont none).gathered = w₀.gathered)
    (hpoint : ∀ r last, w₀.Stands s.futures last → (cont r).Stands s.futures last) :
    (s.popStep expired cont).Deliveries := by
  subst hw
  unfold SchedulerSystem.popStep
  split
  · rename_i r q hp
    refine h.stay rfl rfl (fun ref => ?_) (hpoint r)
    have hgathered : (cont r).gathered = s.worker.gathered ++ r.toList := by
      rcases r with _ | req
      · simp [hnone]
      · simp [hsome]
    have hheap := count_pop hp ref
    simp only [refsAt, hgathered, List.map_append, List.count_append]
    omega
  · exact h

end Queue

theorem cancel (h : s.Deliveries) (ref : ℕ) : (s.cancel ref).Deliveries := by
  have hevolve : ∀ ref', (s.cancel ref).futures ref' = s.futures ref' ∨
      (s.cancel ref).futures ref' = (s.futures ref').map Future.cancel := by
    intro ref'
    simp only [SchedulerSystem.cancel, Function.update_apply]
    split_ifs with he
    · exact .inr (he ▸ rfl)
    · exact .inl rfl
  refine h.move (fun ref' _ => hevolve ref') rfl (fun ref' hr => ?_) (fun _ => rfl) fun _ hl => hl
  rcases hevolve ref' with he | he <;> simp [he, h.unknown ref' hr]

variable [Field K] [LinearOrder K]

theorem submit (h : s.Deliveries) {now : K} {req : Request K} (hnew : req.ref ∉ s.submitted) :
    (s.submit now req).Deliveries := by
  have hacc : req.ref ∉ s.history.accepted := fun hr => hnew (List.mem_append_left _ hr)
  unfold SchedulerSystem.submit
  simp only
  split_ifs
  · have hevolve : s.futures.Evolve (Function.update s.futures req.ref (some .pending)) := by
      intro ref hr
      have hne : ref ≠ req.ref := fun he => hr (he ▸ h.unknown _ hacc)
      exact .inl (Function.update_of_ne hne ..)
    refine { h with distinct := ?_, places := ?_, unknown := ?_, waiting := ?_, point := ?_ }
    · exact nodup_accepted h.distinct hnew
    · intro ref
      have hc := h.places ref
      simp only [refsAt, servedRefs, List.map_cons, List.count_append, List.count_cons,
        List.count_nil] at hc ⊢
      omega
    · intro ref hr
      rw [List.mem_append, List.mem_singleton, not_or] at hr
      simpa only [Function.update_of_ne hr.2] using h.unknown ref hr.1
    · intro ref hr hs
      rcases List.mem_append.mp hr with hr | hr
      · exact hevolve.unresolved (h.waiting ref hr hs)
      · obtain rfl := List.mem_singleton.mp hr
        exact .inl (Function.update_self ..)
    · obtain ⟨through, last, hserved, hsettled, hstands⟩ := h.point
      exact ⟨through, last, hserved, fun b hb => hevolve.settled (hsettled b hb),
        hstands.evolve hevolve⟩
  · exact { h with distinct := nodup_rejected h.distinct hnew _ }

theorem init (maxBatchSize : ℕ) (rate burst now : K) :
    (machine maxBatchSize rate burst now).init.Deliveries := by
  constructor
  case point => exact ⟨[], [], rfl, fun b hb => absurd hb List.not_mem_nil, rfl⟩
  all_goals simp [machine, Scheduler.init, submitted, refsAt, WorkerPoint.gathered, servedRefs]

theorem workerStep (h : s.Deliveries) {a : WorkerAction K} (hok : s.allowed (.worker a) = true)
    (hs : WorkerStepped s a s') : s'.Deliveries := by
  cases hs with
  | started hw => exact (h.setRunning true).setWorker hw rfl fun _ hl => hl
  | checkedRunning hw => split_ifs <;> exact h.setWorker hw rfl fun _ hl => hl
  | poppedFirst hw =>
    apply h.popStep hw
    · exact fun _ => rfl
    · rfl
    · rintro (_ | first) last hl
      · exact hl
      · exact ⟨hl, List.cons_ne_nil _ _⟩
  | checkedFull hw => split_ifs <;> exact h.setWorker hw rfl fun _ hl => hl
  | @poppedMore batch expired hw =>
    apply h.popStep hw
    · exact fun _ => rfl
    · rfl
    · rintro (_ | more) last hl
      · exact hl
      · exact ⟨hl.1, List.append_ne_nil_of_left_ne_nil hl.2 _⟩
  | @ran batch r hw =>
    obtain ⟨-, -, -, -, -, hne⟩ := h.point_at hw
    rcases r with e | results
    · exact h.serve hw ⟨hne, fun _ hr => by cases hr⟩ rfl fun hm => .inl ⟨rfl, hm⟩
    · have hlen : results.length = batch.length := by simpa [allowed, hw] using hok
      refine h.serve hw ⟨hne, fun _ hr => ?_⟩ rfl fun hm => ⟨results, rfl, hm⟩
      rwa [← Except.ok.inj hr]
  | delivered hw =>
    refine h.setWorker hw rfl ?_
    rintro last ⟨results, rfl, hm⟩
    exact ⟨_, rfl, hm.delivered⟩
  | delivering hw =>
    obtain ⟨through, last, hserved, hsettled, results, rfl, hm⟩ := h.point_at hw
    refine h.resolveStep hw hserved hsettled hm rfl (fun _ => rfl) ?_ ?_
    · exact fun fs hm' => ⟨results, rfl, hm'⟩
    · exact fun e hi => .inr ⟨results, rfl, rfl, hi⟩
  | failed hw =>
    refine h.setWorker hw rfl ?_
    rintro last (⟨rfl, hm⟩ | ⟨results, rfl, rfl, -, req, rest, hb, -⟩)
    · exact ⟨_, rfl, hm.delivered⟩
    · cases hb
  | @failing batch e req todo hw =>
    obtain ⟨through, last, hserved, hsettled, hstands⟩ := h.point_at hw
    rcases hstands with ⟨rfl, hm⟩ | ⟨results, rfl, hall, hi⟩
    · refine h.resolveStep hw hserved hsettled hm rfl (fun _ => rfl) ?_ ?_
      · exact fun fs hm' => .inl ⟨rfl, hm'⟩
      · exact fun e hi => ⟨_, rfl, .inl hi.1⟩
    · -- the exception is delivered to the whole batch again, the first future first
      obtain ⟨hcancelled, first, rest, hb, hclosed⟩ := hi
      obtain ⟨rfl, -⟩ := List.cons.inj (hall.trans hb)
      obtain ⟨e', he'⟩ := Futures.resolve_closed hclosed (.error e)
      simp only [SchedulerSystem.resolveStep, he']
      exact h.raise hw hserved hsettled rfl ⟨_, rfl, .inl hcancelled⟩
  | accounted hw => exact h.account hw

theorem step (h : s.Deliveries) {e : SchedulerEvent K} (hok : s.admits e = true)
    (hs : s.step e = some s') : s'.Deliveries := by
  cases e with
  | submit now req =>
    obtain rfl := Option.some.inj hs
    exact h.submit (by simpa [admits, allowed] using hok)
  | push req => exact h.push hs
  | cancel ref =>
    obtain rfl := Option.some.inj hs
    exact h.cancel ref
  | stop =>
    obtain rfl := Option.some.inj hs
    exact h.setRunning false
  | worker a => exact h.workerStep hok (workerStepped hs)

end Deliveries

/-! ### One future -/

/-- What a step does to the future of `ref`. -/
inductive FutureStepped (e : SchedulerEvent K) (ref : ℕ) : Option Future → Option Future → Prop
  | same {f : Option Future} (h : e = .cancel ref → f ≠ some .pending) : FutureStepped e ref f f
  | submitted : FutureStepped e ref none (some .pending)
  | cancelled (h : e = .cancel ref) : FutureStepped e ref (some .pending) (some .cancelled)
  | resolved {o : Outcome} (h : e ≠ .cancel ref) :
      FutureStepped e ref (some .pending) (some (.finished o))

theorem futureStepped_resolveStep (s : SchedulerSystem K) {e : SchedulerEvent K} {ref : ℕ}
    (he : e ≠ .cancel ref) (req : Request K) (o : Outcome) (done : WorkerPoint K)
    (raised : PyException → WorkerPoint K) :
    FutureStepped e ref (s.futures ref) ((s.resolveStep req o done raised).futures ref) := by
  unfold resolveStep
  rcases hf : s.futures req.ref with _ | (_ | o' | _)
  case some.pending =>
    rw [Futures.resolve_pending hf]
    by_cases hr : ref = req.ref
    · subst hr
      simp only [Function.update_self, hf]
      exact .resolved he
    · simp only [Function.update_of_ne hr]
      exact .same fun h => absurd h he
  all_goals
    simp only [Futures.resolve, hf, Future.resolve, Except.map]
    exact .same fun h => absurd h he

variable [Field K] [LinearOrder K]

theorem Deliveries.futureStepped {s s' : SchedulerSystem K} (h : s.Deliveries)
    {e : SchedulerEvent K} (hok : s.admits e = true) (hs : s.step e = some s') (ref : ℕ) :
    FutureStepped e ref (s.futures ref) (s'.futures ref) := by
  cases e with
  | submit now req =>
    obtain rfl := Option.some.inj hs
    have hnew : req.ref ∉ s.submitted := by simpa [admits, allowed] using hok
    have hnone := h.unknown req.ref fun hr => hnew (List.mem_append_left _ hr)
    simp only [SchedulerSystem.submit]
    split_ifs
    · by_cases hr : ref = req.ref
      · subst hr
        simp only [Function.update_self, hnone]
        exact .submitted
      · simp only [Function.update_of_ne hr]
        exact .same fun he => by cases he
    · exact .same fun he => by cases he
  | push req =>
    simp only [SchedulerSystem.step, SchedulerSystem.push] at hs
    split_ifs at hs
    obtain rfl := Option.some.inj hs
    exact .same fun he => by cases he
  | cancel c =>
    obtain rfl := Option.some.inj hs
    by_cases hr : ref = c
    · subst hr
      rcases hf : s.futures ref with _ | (_ | o | _) <;>
        simp only [SchedulerSystem.cancel, hf, Function.update_self, Option.map, Future.cancel]
      case some.pending => exact .cancelled rfl
      all_goals exact .same fun _ hpend => by cases hpend
    · simp only [SchedulerSystem.cancel, Function.update_of_ne hr]
      exact .same fun he => absurd (SchedulerEvent.cancel.inj he).symm hr
  | stop =>
    obtain rfl := Option.some.inj hs
    exact .same fun he => by cases he
  | worker a =>
    cases workerStepped hs with
    | poppedFirst | poppedMore =>
      unfold SchedulerSystem.popStep
      split <;> exact .same fun he => by cases he
    | delivering | failing =>
      apply futureStepped_resolveStep
      exact fun he => by cases he
    | _ => exact .same fun he => by cases he

end SchedulerSystem
end InferenceCluster
