import InferenceCluster.Sanity.Deliveries

/-! The counters of the scheduler: the token count is what the counted batches report. -/

namespace InferenceCluster

variable {K : Type}

theorem Scheduler.account_total [Add K] (s : Scheduler K) (fs : Futures) (batch : List (Request K))
    (batchMs : K) : (s.account fs batch batchMs).2.totalTokensGenerated =
      s.totalTokensGenerated + (match fs.tokens batch with | .ok n => n | .error _ => 0) := by
  unfold account
  cases fs.tokens batch <;> rfl

namespace SchedulerSystem

/-- What a step does to the counters and to the lists of batches. -/
inductive CountStepped (s : SchedulerSystem K) (e : SchedulerEvent K) (s' : SchedulerSystem K) :
    Prop
  | same (hserved : s'.history.served = s.history.served)
      (hcompleted : s'.history.completed = s.history.completed)
      (htotal : s'.scheduler.totalTokensGenerated = s.scheduler.totalTokensGenerated)
      (hpoint : s'.worker.down = false →
        s.worker.down = false ∧ s'.worker.inFlight = s.worker.inFlight)
  | ran {batch : List (Request K)} {r : Except PyException (List BatchResult)}
      (hw : s.worker = .runBatch batch) (he : e = .worker (.runBatch r))
      (hserved : s'.history.served = s.history.served ++ [(batch, r)])
      (hcompleted : s'.history.completed = s.history.completed)
      (htotal : s'.scheduler.totalTokensGenerated = s.scheduler.totalTokensGenerated)
      (hpoint : s'.worker.inFlight = [batch])
  | counted {batch : List (Request K)} (hw : s.worker = .accounting batch)
      (hserved : s'.history.served = s.history.served)
      (hcompleted : s'.history.completed = s.history.completed ++ [batch])
      (htotal : s'.scheduler.totalTokensGenerated = s.scheduler.totalTokensGenerated +
        match s.futures.tokens batch with | .ok n => n | .error _ => 0)
      (hpoint : s'.worker.inFlight = [])

/-- A section that neither serves nor counts, and after which the worker is not down. -/
theorem CountStepped.move {s s' : SchedulerSystem K} {e : SchedulerEvent K} {w₀ : WorkerPoint K}
    (hw : s.worker = w₀) (hserved : s'.history.served = s.history.served)
    (hcompleted : s'.history.completed = s.history.completed)
    (htotal : s'.scheduler.totalTokensGenerated = s.scheduler.totalTokensGenerated)
    (hup : w₀.down = false) (hflight : s'.worker.inFlight = w₀.inFlight) : CountStepped s e s' :=
  .same hserved hcompleted htotal fun _ => hw ▸ ⟨hup, hflight⟩

theorem countStepped_resolveStep {s : SchedulerSystem K} {e : SchedulerEvent K} {w₀ : WorkerPoint K}
    (hw : s.worker = w₀) (hup : w₀.down = false) (req : Request K) (o : Outcome)
    {done : WorkerPoint K} {raised : PyException → WorkerPoint K}
    (hdone : done.inFlight = w₀.inFlight)
    (hraised : ∀ e, (raised e).down = true ∨ (raised e).inFlight = w₀.inFlight) :
    CountStepped s e (s.resolveStep req o done raised) := by
  unfold resolveStep
  split
  · exact .move hw rfl rfl rfl hup hdone
  · rename_i e' _
    rcases hraised e' with hdown | hflight
    · refine .same rfl rfl rfl fun hup' => ?_
      rw [hdown] at hup'
      cases hup'
    · exact .move hw rfl rfl rfl hup hflight

variable [LinearOrder K]

theorem countStepped_popStep {s : SchedulerSystem K} {e : SchedulerEvent K} {w₀ : WorkerPoint K}
    (hw : s.worker = w₀) (hup : w₀.down = false) {expired : Bool}
    {cont : Option (Request K) → WorkerPoint K} (hcont : ∀ r, (cont r).inFlight = w₀.inFlight) :
    CountStepped s e (s.popStep expired cont) := by
  unfold popStep
  split
  · exact .move hw rfl rfl rfl hup (hcont _)
  · exact .same rfl rfl rfl fun h => ⟨h, rfl⟩

variable [Field K]

theorem countStepped_worker {s s' : SchedulerSystem K} {a : WorkerAction K}
    (hs : WorkerStepped s a s') : CountStepped s (.worker a) s' := by
  cases hs with
  | started hw => exact .move hw rfl rfl rfl rfl rfl
  | checkedRunning hw => split_ifs <;> exact .move hw rfl rfl rfl rfl rfl
  | checkedFull hw => split_ifs <;> exact .move hw rfl rfl rfl rfl rfl
  | poppedFirst hw =>
    apply countStepped_popStep hw rfl
    rintro (_ | first) <;> rfl
  | poppedMore hw =>
    apply countStepped_popStep hw rfl
    rintro (_ | more) <;> rfl
  | @ran batch r hw =>
    refine .ran hw rfl rfl rfl rfl ?_
    cases r <;> rfl
  | delivered hw | failed hw => exact .move hw rfl rfl rfl rfl rfl
  | delivering hw => exact countStepped_resolveStep hw rfl _ _ rfl fun _ => .inr rfl
  | failing hw => exact countStepped_resolveStep hw rfl _ _ rfl fun _ => .inl rfl
  | @accounted batch batchMs hw =>
    refine .counted hw rfl rfl (Scheduler.account_total ..) ?_
    cases (s.scheduler.account s.futures batch batchMs).1 <;> rfl

theorem countStepped {s s' : SchedulerSystem K} {e : SchedulerEvent K} (hs : s.step e = some s') :
    CountStepped s e s' := by
  cases e with
  | submit now req =>
    obtain rfl := Option.some.inj hs
    simp only [SchedulerSystem.submit]
    split_ifs <;> exact .same rfl rfl rfl fun h => ⟨h, rfl⟩
  | push req =>
    simp only [SchedulerSystem.step, SchedulerSystem.push] at hs
    split_ifs at hs
    obtain rfl := Option.some.inj hs
    exact .same rfl rfl rfl fun h => ⟨h, rfl⟩
  | cancel | stop =>
    obtain rfl := Option.some.inj hs
    exact .same rfl rfl rfl fun h => ⟨h, rfl⟩
  | worker a => exact countStepped_worker (workerStepped hs)

/-! ### The invariant -/

omit [Field K] [LinearOrder K] in
theorem Deliveries.served_of_accounting {s : SchedulerSystem K} (h : s.Deliveries)
    {batch : List (Request K)} (hw : s.worker = .accounting batch) :
    ∃ through r, s.history.served = through ++ [(batch, r)] ∧
      s.futures.Delivered (Served.due (batch, r)) := by
  obtain ⟨through, last, hserved, -, r, rfl, hdel⟩ := h.point_at hw
  exact ⟨through, r, hserved, hdel⟩

/-- The batches that are counted, with what their model runs returned or raised. -/
def counted (s : SchedulerSystem K) : List (Served K) :=
  s.history.served.take s.history.completed.length

structure Counted (s : SchedulerSystem K) : Prop where
  completed : s.history.completed = s.counted.map Prod.fst
  total : s.scheduler.totalTokensGenerated = (s.counted.map Served.reported).sum
  delivered : ∀ b ∈ s.counted, s.futures.Delivered (Served.due b)
  flight : s.worker.down = false →
    s.history.served.length = s.history.completed.length + s.worker.inFlight.length

/-- What is delivered stays delivered. -/
theorem Deliveries.delivered_step {s s' : SchedulerSystem K} (h : s.Deliveries)
    {e : SchedulerEvent K} (hok : s.admits e = true) (hs : s.step e = some s')
    {ps : List (Request K × Outcome)} (hps : s.futures.Delivered ps) : s'.futures.Delivered ps := by
  intro p hp
  have hf := h.futureStepped hok hs p.1.ref
  rw [hps p hp] at hf
  generalize s'.futures p.1.ref = f at hf
  cases hf
  rfl

namespace Counted

variable {s s' : SchedulerSystem K}

omit [Field K] [LinearOrder K] in
theorem length_le (h : s.Counted) : s.history.completed.length ≤ s.history.served.length := by
  have hlen := congrArg List.length h.completed
  rw [List.length_map, counted, List.length_take] at hlen
  omega

theorem step (h : s.Counted) (hd : s.Deliveries) {e : SchedulerEvent K} (hok : s.admits e = true)
    (hs : s.step e = some s') : s'.Counted := by
  have hdelivered := fun b hb => hd.delivered_step hok hs (h.delivered b hb)
  cases countStepped hs with
  | same hserved hcompleted htotal hpoint =>
    have hcounted : s'.counted = s.counted := by
      rw [counted, hserved, hcompleted, counted]
    constructor
    · rw [hcompleted, hcounted, h.completed]
    · rw [htotal, hcounted, h.total]
    · rwa [hcounted]
    · intro hup
      obtain ⟨hup, hflight⟩ := hpoint hup
      rw [hserved, hcompleted, hflight, h.flight hup]
  | ran hw he hserved hcompleted htotal hpoint =>
    have hcounted : s'.counted = s.counted := by
      rw [counted, hserved, hcompleted, List.take_append_of_le_length h.length_le, counted]
    have hflight := h.flight (by rw [hw]; rfl)
    rw [hw] at hflight
    constructor
    · rw [hcompleted, hcounted, h.completed]
    · rw [htotal, hcounted, h.total]
    · rwa [hcounted]
    · intro _
      rw [hserved, hcompleted, hpoint, List.length_append, hflight]
      rfl
  | @counted batch hw hserved hcompleted htotal hpoint =>
    obtain ⟨through, r, hbatches, hdel⟩ := hd.served_of_accounting hw
    have hflight := h.flight (by rw [hw]; rfl)
    have hlen : through.length = s.history.completed.length := by
      rw [hw, hbatches, List.length_append] at hflight
      exact Nat.add_right_cancel hflight
    have hcounted : s.counted = through := by
      rw [counted, hbatches, ← hlen, List.take_left]
    have hcounted' : s'.counted = s.counted ++ [(batch, r)] := by
      rw [hcounted, ← hbatches, counted, hserved, hcompleted, List.length_append, ← hlen,
        List.take_of_length_le (by simp [hbatches])]
    have hreported : (match s.futures.tokens batch with | .ok n => n | .error _ => 0) =
        Served.reported (batch, r) := by
      have hfits := hd.fits (batch, r) (by simp [hbatches])
      rcases Futures.tokens_cases hfits hdel with ⟨-, ht⟩ | ⟨e, he, -, ht⟩
      · rw [ht]
      · obtain rfl : r = .error e := he
        rw [ht]
        rfl
    constructor
    · rw [hcompleted, hcounted', h.completed, List.map_append, List.map_singleton]
    · rw [htotal, hcounted', hreported, h.total, List.map_append, List.sum_append,
        List.map_singleton, List.sum_singleton]
    · intro b hb
      rw [hcounted', List.mem_append, List.mem_singleton] at hb
      rcases hb with hb | rfl
      · exact hdelivered b hb
      · exact hd.delivered_step hok hs hdel
    · intro _
      rw [hserved, hcompleted, hpoint, hflight, hw, List.length_append]
      rfl

theorem init (maxBatchSize : ℕ) (rate burst now : K) :
    (machine maxBatchSize rate burst now).init.Counted := by
  constructor <;> simp [machine, Scheduler.init, counted, WorkerPoint.inFlight]

end Counted

theorem counted_of_run {maxBatchSize : ℕ} {rate burst now : K}
    {events : List (SchedulerEvent K)} {s : SchedulerSystem K}
    (h : (machine maxBatchSize rate burst now).Run events s)
    (hok : (machine maxBatchSize rate burst now).Meets (fun s e => s.admits e) events) :
    s.Deliveries ∧ s.Counted :=
  Machine.Run.invariant_of_meets (I := fun _ s => s.Deliveries ∧ s.Counted)
    ⟨.init maxBatchSize rate burst now, .init maxBatchSize rate burst now⟩
    (fun _ _ _ _ _ hI hok hs => ⟨hI.1.step hok hs, hI.2.step hI.1 hok hs⟩) h hok

end SchedulerSystem
end InferenceCluster
