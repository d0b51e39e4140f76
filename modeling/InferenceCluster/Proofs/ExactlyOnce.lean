import InferenceCluster.Sanity.Scheduler
import Mathlib.Algebra.Order.Field.Rat

/-! Exactly-once service: in every run with new request objects and without cancelled
futures, each accepted request is in one place, and resolved once at the most. -/

namespace InferenceCluster
namespace SchedulerSystem

variable {K : Type}

/-- The books as the users of the scheduler read them. -/
structure ExactlyOnce (maxBatchSize : ℕ) (s : SchedulerSystem K) : Prop where
  place : ∀ ref ∈ s.history.accepted, ∃! p, ref ∈ s.refsAt p
  once : ∀ p, (s.refsAt p).Nodup
  rejected : ∀ r ∈ s.history.rejected, ∀ p, r.1 ∉ s.refsAt p
  pending : ∀ p ≠ .resolved, ∀ ref ∈ s.refsAt p, s.futures ref = some .pending
  resolved : ∀ r ∈ s.history.resolutions, s.futures r.1 = some (.finished r.2) ∧
    OwnOutcome s.history.served r.1 r.2
  ownBatch : (s.history.served.flatMap fun b => b.1.map Request.ref).Nodup
  running : ∀ batch, s.worker = .runBatch batch →
    1 ≤ batch.length ∧ batch.length ≤ maxBatchSize
  served : ∀ b ∈ s.history.served, 1 ≤ b.1.length ∧ b.1.length ≤ maxBatchSize
  completed : s.history.served.map Prod.fst = s.history.completed ++ s.worker.inFlight
  completedResolved : ∀ batch ∈ s.history.completed, ∀ req ∈ batch, req.ref ∈ s.refsAt .resolved
  processed : s.scheduler.requestsProcessed = (s.history.completed.map List.length).sum
  /-- No `set_result` and no `set_exception` raises, and the count of a batch does only where the
  model run has raised an exception that is false as a condition. -/
  crashed : ∀ e, s.worker = .crashed e →
    e = noResult ∧ ∃ b ∈ s.history.served, ∃ e', b.2 = .error e' ∧ e'.truth = false

namespace Books

variable {m : ℕ} {s : SchedulerSystem K}

theorem inFlight_of_unresolved {w : WorkerPoint K} {served} (hw : w.Ok m served) {req : Request K}
    (hr : req ∈ w.unresolved) : ∃ batch, w.inFlight = [batch] ∧ req ∈ batch := by
  cases w with
  | delivering batch todo =>
    obtain ⟨results, -, hsuf⟩ := hw
    obtain ⟨⟨req, result⟩, hm, rfl⟩ := List.mem_map.mp hr
    exact ⟨batch, rfl, (List.of_mem_zip (hsuf.subset hm)).1⟩
  | failing batch e todo => exact ⟨batch, rfl, hw.2.subset hr⟩
  | _ => cases hr

theorem completed_resolved (h : s.Books m) {batch : List (Request K)}
    (hb : batch ∈ s.history.completed) {req : Request K} (hr : req ∈ batch) :
    req.ref ∈ s.refsAt .resolved := by
  have hserved : batch ∈ s.history.served.map Prod.fst := by
    rw [h.completed]
    exact List.mem_append_left _ hb
  have hnot : req.ref ∉ s.worker.unresolved.map Request.ref := by
    intro hu
    obtain ⟨req', hu, heq⟩ := List.mem_map.mp hu
    obtain ⟨batch', hfl, hr'⟩ := inFlight_of_unresolved h.point hu
    -- the request would be in a completed batch and in the one in flight
    have hnd := h.served_nodup
    have hflat : (s.history.served.flatMap fun b => b.1.map Request.ref) =
        (s.history.completed.flatMap fun b => b.map Request.ref) ++ batch'.map Request.ref := by
      rw [← List.flatMap_map (f := Prod.fst) (g := fun b : List (Request K) => b.map Request.ref),
        h.completed, hfl, List.flatMap_append, List.flatMap_singleton]
    rw [hflat] at hnd
    exact List.disjoint_of_nodup_append hnd
      (List.mem_flatMap.mpr ⟨batch, hb, List.mem_map_of_mem hr⟩)
      (heq ▸ List.mem_map_of_mem hr')
  obtain ⟨o, ho⟩ := h.resolved_of_served hserved hr hnot
  exact List.mem_map_of_mem ho

theorem exactlyOnce (h : s.Books m) : s.ExactlyOnce m where
  place ref hr := by
    obtain ⟨p, hp⟩ := h.exists_place hr
    exact ⟨p, hp, fun q hq => h.place_unique hq hp⟩
  once := h.refsAt_nodup
  rejected r hr p hp := by
    have hd := List.disjoint_of_nodup_append h.distinct
    exact hd (h.mem_accepted hp) (List.mem_map_of_mem hr)
  pending p hp ref hr :=
    h.pending ref (h.mem_accepted hr) fun hres => hp (h.place_unique hr hres)
  resolved := h.finished
  ownBatch := h.served_nodup
  running _ hw := h.point_at hw
  served := h.sizes
  completed := h.completed
  completedResolved _ hb _ hr := h.completed_resolved hb hr
  processed := h.processed
  crashed _ hw := h.point_at hw

end Books

variable [Field K] [LinearOrder K]

theorem books_of_run {maxBatchSize : ℕ} (hmax : 1 ≤ maxBatchSize) {rate burst now : K}
    {events : List (SchedulerEvent K)} {s : SchedulerSystem K}
    (h : (machine maxBatchSize rate burst now).Run events s)
    (hok : (machine maxBatchSize rate burst now).Meets (fun s e => s.allowed e) events) :
    s.Books maxBatchSize :=
  Machine.Run.invariant_of_meets (I := fun _ => Books maxBatchSize)
    (Books.init maxBatchSize rate burst now) (fun _ _ _ _ _ hI hok hs => hI.step hmax hok hs) h hok

/-- Whatever the interleaving of the API threads with the worker. -/
theorem exactly_once {maxBatchSize : ℕ} (hmax : 1 ≤ maxBatchSize) {rate burst now : K}
    {events : List (SchedulerEvent K)} {s : SchedulerSystem K}
    (h : (machine maxBatchSize rate burst now).Run events s)
    (hok : (machine maxBatchSize rate burst now).Meets (fun s e => s.allowed e) events) :
    s.ExactlyOnce maxBatchSize :=
  (books_of_run hmax h hok).exactlyOnce

/-- Two of three requests are accepted, pushed against their order and served in one batch. -/
def oneBatch : List (SchedulerEvent ℚ) :=
  let req (ref : ℕ) : Request ℚ :=
    { ref, prompt := "", temperature := 1, topP := 1, arrivalTime := ref, requestId := "" }
  [.worker .start, .submit 0 (req 1), .worker .checkRunning, .submit 0 (req 2),
    .submit 0 (req 3), .push (req 2), .worker (.popFirst false), .worker (.checkFull false),
    .worker (.popMore false), .push (req 1), .worker (.popMore false), .worker (.checkFull false),
    .worker (.runBatch (.ok [⟨"a", 1, 1⟩, ⟨"b", 1, 2⟩])), .worker .resolve, .stop,
    .worker .resolve, .worker .resolve, .worker (.account 1), .worker .checkRunning]

theorem exactly_once_oneBatch : ∃ s, (machine 2 0 2 0).Run oneBatch s ∧
    s.refsAt .resolved = [2, 1] ∧ s.history.rejected.map Prod.fst = [3] ∧ s.ExactlyOnce 2 := by
  have hexec : ((machine 2 0 2 0).exec (machine 2 0 2 0).init oneBatch).map
      (fun s => (s.refsAt .resolved, s.history.rejected.map Prod.fst)) = some ([2, 1], [3]) := by
    decide +kernel
  obtain ⟨s, hs, hplaces⟩ := Option.map_eq_some_iff.mp hexec
  obtain ⟨hres, hrej⟩ := Prod.mk.inj hplaces
  have hr := (Machine.run_iff_exec _).mpr hs
  have hok : (machine (2 : ℕ) (0 : ℚ) 2 0).Meets (fun s e => s.allowed e) oneBatch :=
    Machine.meets_of_checks _ (by decide +kernel)
  exact ⟨s, hr, hres, hrej, exactly_once (by decide) hr hok⟩

end SchedulerSystem
end InferenceCluster
