import InferenceCluster.Sanity.Deliveries
import InferenceCluster.Spec.Service

/-! The scheduler under reconfiguration: what a change of the limit leaves alone, and how
large the batches get. -/

namespace InferenceCluster

variable {K : Type}

/-- The batch that the worker gathers has at most `bound` requests, and room for one more where
it waits for one. -/
def WorkerPoint.Within (bound : ℕ) : WorkerPoint K → Prop
  | .collecting batch | .runBatch batch => 1 ≤ batch.length ∧ batch.length ≤ bound
  | .waitMore batch => 1 ≤ batch.length ∧ batch.length < bound
  | .notStarted | .loopTop | .waitFirst | .delivering _ _ | .failing _ _ _ | .accounting _ | .exited
  | .crashed _ => True

theorem WorkerPoint.Within.mono {bound bound' : ℕ} {w : WorkerPoint K} (h : w.Within bound)
    (hle : bound ≤ bound') : w.Within bound' := by
  cases w with
  | collecting | runBatch => exact ⟨h.1, h.2.trans hle⟩
  | waitMore => exact ⟨h.1, h.2.trans_le hle⟩
  | _ => trivial

namespace SchedulerSystem

/-! ### Batches -/

/-- What a step does to the batches. -/
inductive BatchStepped (s s' : SchedulerSystem K) : Prop
  | same (hserved : s'.history.served = s.history.served)
      (hcompleted : s'.history.completed = s.history.completed)
      (hpoint : s'.worker.down = false →
        s.worker.down = false ∧ s'.worker.inFlight = s.worker.inFlight)
      (hbatches : s'.scheduler.batchesProcessed = s.scheduler.batchesProcessed)
      (hrequests : s'.scheduler.requestsProcessed = s.scheduler.requestsProcessed)
      (hwithin : ∀ bound, s.scheduler.maxBatchSize ≤ bound → 1 ≤ bound → s.worker.Within bound →
        s'.worker.Within bound)
  | ran {batch : List (Request K)} {r : Except PyException (List BatchResult)}
      (hw : s.worker = .runBatch batch)
      (hserved : s'.history.served = s.history.served ++ [(batch, r)])
      (hcompleted : s'.history.completed = s.history.completed)
      (hflight : s'.worker.inFlight = [batch])
      (hbatches : s'.scheduler.batchesProcessed = s.scheduler.batchesProcessed)
      (hrequests : s'.scheduler.requestsProcessed = s.scheduler.requestsProcessed)
      (hwithin : ∀ bound, s'.worker.Within bound)
  | counted {batch : List (Request K)} (hw : s.worker = .accounting batch)
      (hserved : s'.history.served = s.history.served)
      (hcompleted : s'.history.completed = s.history.completed ++ [batch])
      (hflight : s'.worker.inFlight = [])
      (hbatches : s'.scheduler.batchesProcessed = s.scheduler.batchesProcessed + 1)
      (hrequests : s'.scheduler.requestsProcessed = s.scheduler.requestsProcessed + batch.length)
      (hwithin : ∀ bound, s'.worker.Within bound)

theorem BatchStepped.move {s s' : SchedulerSystem K} {w₀ : WorkerPoint K} (hw : s.worker = w₀)
    (hup : w₀.down = false) (hflight : s'.worker.inFlight = w₀.inFlight)
    (hsch : s'.scheduler = s.scheduler ∨ ∃ running, s'.scheduler = { s.scheduler with running })
    (hserved : s'.history.served = s.history.served)
    (hcompleted : s'.history.completed = s.history.completed)
    (hwithin : ∀ bound, s.scheduler.maxBatchSize ≤ bound → w₀.Within bound →
      s'.worker.Within bound) : BatchStepped s s' := by
  subst hw
  refine .same hserved hcompleted (fun _ => ⟨hup, hflight⟩) ?_ ?_ fun bound hlim _ h => hwithin bound hlim h
  · rcases hsch with h | ⟨running, h⟩ <;> rw [h]
  · rcases hsch with h | ⟨running, h⟩ <;> rw [h]

theorem batchStepped_resolveStep {s : SchedulerSystem K} {w₀ : WorkerPoint K} (hw : s.worker = w₀)
    (hup : w₀.down = false) (req : Request K) (o : Outcome) {done : WorkerPoint K}
    {raised : PyException → WorkerPoint K} (hdone : done.inFlight = w₀.inFlight)
    (hraised : ∀ e, (raised e).down = true ∨ (raised e).inFlight = w₀.inFlight)
    (hwithin : ∀ bound, done.Within bound) (hwithin' : ∀ e bound, (raised e).Within bound) :
    BatchStepped s (s.resolveStep req o done raised) := by
  subst hw
  unfold resolveStep
  split
  · exact .same rfl rfl (fun _ => ⟨hup, hdone⟩) rfl rfl fun _ _ _ _ => hwithin _
  · rename_i e _
    refine .same rfl rfl (fun hdown => ⟨hup, (hraised e).resolve_left ?_⟩) rfl rfl
      fun _ _ _ _ => hwithin' _ _
    exact fun h => by rw [hdown] at h; cases h

section Queue

variable [LinearOrder K]

theorem batchStepped_popStep {s : SchedulerSystem K} {w₀ : WorkerPoint K} (hw : s.worker = w₀)
    (hup : w₀.down = false) {expired : Bool} {cont : Option (Request K) → WorkerPoint K}
    (hcont : ∀ r, (cont r).inFlight = w₀.inFlight)
    (hwithin : ∀ r bound, 1 ≤ bound → w₀.Within bound → (cont r).Within bound) :
    BatchStepped s (s.popStep expired cont) := by
  subst hw
  unfold popStep
  split
  · exact .same rfl rfl (fun _ => ⟨hup, hcont _⟩) rfl rfl fun _ _ hpos h => hwithin _ _ hpos h
  · exact .same rfl rfl (fun h => ⟨h, rfl⟩) rfl rfl fun _ _ _ h => h

end Queue

variable [Field K] [LinearOrder K]

theorem batchStepped_worker {s s' : SchedulerSystem K} {a : WorkerAction K}
    (hs : WorkerStepped s a s') : BatchStepped s s' := by
  cases hs with
  | started hw => exact .move hw rfl rfl (.inr ⟨true, rfl⟩) rfl rfl fun _ _ _ => trivial
  | checkedRunning hw =>
    split_ifs <;> exact .move hw rfl rfl (.inl rfl) rfl rfl fun _ _ _ => trivial
  | poppedFirst hw =>
    refine batchStepped_popStep hw rfl ?_ ?_
    · rintro (_ | first) <;> rfl
    · rintro (_ | first) bound hpos -
      · trivial
      · exact ⟨le_rfl, hpos⟩
  | checkedFull hw =>
    split_ifs with hlt
    · refine .move hw rfl rfl (.inl rfl) rfl rfl fun bound hlim h => ?_
      exact ⟨h.1, hlt.1.trans_le hlim⟩
    · exact .move hw rfl rfl (.inl rfl) rfl rfl fun _ _ h => h
  | @poppedMore batch expired hw =>
    refine batchStepped_popStep hw rfl ?_ ?_
    · rintro (_ | more) <;> rfl
    · rintro (_ | more) bound - h
      · exact ⟨h.1, h.2.le⟩
      · show 1 ≤ (batch ++ [more]).length ∧ (batch ++ [more]).length ≤ bound
        rw [List.length_append, List.length_singleton]
        exact ⟨Nat.le_add_left _ _, h.2⟩
  | @ran batch r hw =>
    cases r with
    | error e => exact .ran hw rfl rfl rfl rfl rfl fun _ => trivial
    | ok results => exact .ran hw rfl rfl rfl rfl rfl fun _ => trivial
  | delivered hw | failed hw =>
    exact .move hw rfl rfl (.inl rfl) rfl rfl fun _ _ _ => trivial
  | delivering hw =>
    exact batchStepped_resolveStep hw rfl _ _ rfl (fun _ => .inr rfl) (fun _ => trivial)
      fun _ _ => trivial
  | failing hw =>
    exact batchStepped_resolveStep hw rfl _ _ rfl (fun _ => .inl rfl) (fun _ => trivial)
      fun _ _ => trivial
  | @accounted batch batchMs hw =>
    have hbatches : (s.scheduler.account s.futures batch batchMs).2.batchesProcessed =
        s.scheduler.batchesProcessed + 1 := by
      unfold Scheduler.account
      split <;> rfl
    refine .counted hw rfl rfl ?_ hbatches (by simp) fun bound => ?_
    · cases (s.scheduler.account s.futures batch batchMs).1 <;> rfl
    · cases (s.scheduler.account s.futures batch batchMs).1 <;> trivial

theorem batchStepped {s s' : SchedulerSystem K} {e : SchedulerEvent K} (hs : s.step e = some s') :
    BatchStepped s s' := by
  cases e with
  | submit now req =>
    obtain rfl := Option.some.inj hs
    simp only [SchedulerSystem.submit]
    split_ifs <;> exact .same rfl rfl (fun h => ⟨h, rfl⟩) rfl rfl fun _ _ _ h => h
  | push req =>
    simp only [SchedulerSystem.step, SchedulerSystem.push] at hs
    split_ifs at hs
    obtain rfl := Option.some.inj hs
    exact .same rfl rfl (fun h => ⟨h, rfl⟩) rfl rfl fun _ _ _ h => h
  | cancel | stop =>
    obtain rfl := Option.some.inj hs
    exact .same rfl rfl (fun h => ⟨h, rfl⟩) rfl rfl fun _ _ _ h => h
  | worker a => exact batchStepped_worker (workerStepped hs)

theorem maxBatchSize_step {s s' : SchedulerSystem K} {e : SchedulerEvent K}
    (hs : s.step e = some s') : s'.scheduler.maxBatchSize = s.scheduler.maxBatchSize := by
  cases e with
  | submit now req =>
    obtain rfl := Option.some.inj hs
    simp only [SchedulerSystem.submit]
    split_ifs <;> rfl
  | push req =>
    simp only [SchedulerSystem.step, SchedulerSystem.push] at hs
    split_ifs at hs
    obtain rfl := Option.some.inj hs
    rfl
  | cancel | stop =>
    obtain rfl := Option.some.inj hs
    rfl
  | worker a =>
    cases workerStepped hs with
    | poppedFirst | poppedMore =>
      unfold popStep
      split <;> rfl
    | delivering | failing =>
      unfold resolveStep
      split <;> rfl
    | accounted => exact Scheduler.account_maxBatchSize ..
    | _ => rfl

/-- Batches of at most `bound` requests, served and then counted one after the other. -/
structure Sized (bound : ℕ) (s : SchedulerSystem K) : Prop where
  limit : s.scheduler.maxBatchSize ≤ bound
  within : s.worker.Within bound
  served : ∀ b ∈ s.history.served, 1 ≤ b.1.length ∧ b.1.length ≤ bound
  counted : s.history.completed <+: s.history.served.map Prod.fst
  inFlight : s.worker.down = false →
    s.history.served.map Prod.fst = s.history.completed ++ s.worker.inFlight
  batches : s.scheduler.batchesProcessed = s.history.completed.length
  requests : s.scheduler.requestsProcessed = (s.history.completed.map List.length).sum

namespace Sized

variable {bound : ℕ} {s s' : SchedulerSystem K}

theorem step (h : s.Sized bound) (hpos : 1 ≤ bound) {e : SchedulerEvent K}
    (hs : s.step e = some s') : s'.Sized bound := by
  have hlimit : s'.scheduler.maxBatchSize ≤ bound := maxBatchSize_step hs ▸ h.limit
  cases batchStepped hs with
  | same hserved hcompleted hpoint hbatches hrequests hwithin =>
    refine ⟨hlimit, hwithin bound h.limit hpos h.within, hserved ▸ h.served,
      hserved ▸ hcompleted ▸ h.counted, fun hdown => ?_, ?_, ?_⟩
    · obtain ⟨hup, hflight⟩ := hpoint hdown
      rw [hserved, hcompleted, hflight, h.inFlight hup]
    · rw [hbatches, hcompleted, h.batches]
    · rw [hrequests, hcompleted, h.requests]
  | @ran batch r hw hserved hcompleted hflight hbatches hrequests hwithin =>
    have hall := h.inFlight (by rw [hw]; rfl)
    rw [hw] at hall
    refine ⟨hlimit, hwithin bound, fun b hb => ?_, ?_, fun _ => ?_, ?_, ?_⟩
    · rw [hserved] at hb
      rcases List.mem_append.mp hb with hb | hb
      · exact h.served b hb
      · obtain rfl := List.mem_singleton.mp hb
        have hin := h.within
        rw [hw] at hin
        exact hin
    · rw [hserved, hcompleted, List.map_append]
      exact h.counted.trans (List.prefix_append _ _)
    · rw [hserved, hcompleted, hflight, List.map_append, hall]
      simp [WorkerPoint.inFlight]
    · rw [hbatches, hcompleted, h.batches]
    · rw [hrequests, hcompleted, h.requests]
  | @counted batch hw hserved hcompleted hflight hbatches hrequests hwithin =>
    have hall := h.inFlight (by rw [hw]; rfl)
    rw [hw] at hall
    have hall' : s'.history.served.map Prod.fst = s'.history.completed := by
      rw [hserved, hcompleted]
      exact hall
    refine ⟨hlimit, hwithin bound, hserved ▸ h.served, ?_, fun _ => ?_, ?_, ?_⟩
    · rw [hall']
    · rw [hall', hflight, List.append_nil]
    · rw [hbatches, hcompleted, h.batches, List.length_append, List.length_singleton]
    · rw [hrequests, hcompleted, h.requests, List.map_append, List.sum_append]
      simp

theorem init {maxBatchSize : ℕ} (h : maxBatchSize ≤ bound) (rate burst now : K) :
    (SchedulerSystem.machine maxBatchSize rate burst now).init.Sized bound := by
  constructor
  case limit => exact h
  case within => trivial
  all_goals simp [machine, Scheduler.init, WorkerPoint.inFlight]

end Sized

/-! ### A higher limit -/

omit [Field K] [LinearOrder K] in
def withLimit (s : SchedulerSystem K) (limit : ℕ) : SchedulerSystem K :=
  { s with scheduler.maxBatchSize := limit }

/-- The event that has the same effect under a higher limit: a full batch is one whose time is
up. -/
def early (s : SchedulerSystem K) : SchedulerEvent K → SchedulerEvent K
  | .worker (.checkFull expired) =>
    match s.worker with
    | .collecting batch =>
      .worker (.checkFull (expired || decide (s.scheduler.maxBatchSize ≤ batch.length)))
    | _ => .worker (.checkFull expired)
  | e => e

omit [Field K] in
theorem popStep_withLimit (s : SchedulerSystem K) (limit : ℕ) (expired : Bool)
    (cont : Option (Request K) → WorkerPoint K) :
    (s.withLimit limit).popStep expired cont = (s.popStep expired cont).withLimit limit := by
  simp only [popStep, withLimit]
  cases s.scheduler.queue.pop expired <;> rfl

omit [Field K] [LinearOrder K] in
theorem resolveStep_withLimit (s : SchedulerSystem K) (limit : ℕ) (req : Request K) (o : Outcome)
    (done : WorkerPoint K) (raised : PyException → WorkerPoint K) :
    (s.withLimit limit).resolveStep req o done raised =
      (s.resolveStep req o done raised).withLimit limit := by
  simp only [resolveStep, withLimit]
  cases s.futures.resolve req.ref o <;> rfl

omit [LinearOrder K] in
theorem account_withLimit (s : SchedulerSystem K) (limit : ℕ) (batch : List (Request K))
    (batchMs : K) : (s.withLimit limit).scheduler.account s.futures batch batchMs =
      ((s.scheduler.account s.futures batch batchMs).1,
        { (s.scheduler.account s.futures batch batchMs).2 with maxBatchSize := limit }) := by
  unfold Scheduler.account
  cases s.futures.tokens batch <;> rfl

theorem step_withLimit {s s' : SchedulerSystem K} {e : SchedulerEvent K} {limit : ℕ}
    (hlim : s.scheduler.maxBatchSize ≤ limit) (hs : s.step e = some s') :
    (s.withLimit limit).step (s.early e) = some (s'.withLimit limit) := by
  cases e with
  | submit now req =>
    obtain rfl := Option.some.inj hs
    by_cases hacc : (s.scheduler.rateLimiter.acquire now).1 = true <;>
      simp [early, SchedulerSystem.step, SchedulerSystem.submit, withLimit, hacc]
  | push req =>
    simp only [SchedulerSystem.step, SchedulerSystem.push] at hs
    split_ifs at hs with hmem
    obtain rfl := Option.some.inj hs
    simp [early, SchedulerSystem.step, SchedulerSystem.push, withLimit, hmem]
  | cancel | stop =>
    obtain rfl := Option.some.inj hs
    rfl
  | worker a =>
    cases workerStepped hs with
    | @checkedFull batch expired hw =>
      simp only [early, hw, SchedulerSystem.step, workerStep, withLimit]
      by_cases hlt : batch.length < s.scheduler.maxBatchSize
      · have hlt' : batch.length < limit := hlt.trans_le hlim
        simp [hlt, hlt', Nat.not_le.mpr hlt]
      · simp [hlt, Nat.not_lt.mp hlt]
    | poppedFirst hw | poppedMore hw =>
      have hw' : (s.withLimit limit).worker = _ := hw
      simp only [early, SchedulerSystem.step, workerStep, hw']
      exact congrArg some (popStep_withLimit ..)
    | delivering hw | failing hw =>
      have hw' : (s.withLimit limit).worker = _ := hw
      simp only [early, SchedulerSystem.step, workerStep, hw', resolveStep_withLimit]
    | @accounted batch batchMs hw =>
      have hacc := account_withLimit s limit batch batchMs
      simp only [withLimit] at hacc
      rcases hfst : (s.scheduler.account s.futures batch batchMs).1 with e | u <;>
        simp [early, SchedulerSystem.step, workerStep, withLimit, hw, hacc, hfst]
    | @ran batch r hw =>
      cases r <;> simp [early, SchedulerSystem.step, workerStep, withLimit, hw]
    | started hw | checkedRunning hw | delivered hw | failed hw =>
      simp only [early, SchedulerSystem.step, workerStep, withLimit, hw]

omit [Field K] [LinearOrder K] in
theorem allowed_early (s : SchedulerSystem K) (limit : ℕ) (e : SchedulerEvent K) :
    (s.withLimit limit).allowed (s.early e) = s.allowed e := by
  cases e with
  | worker a =>
    cases a with
    | checkFull expired =>
      simp only [early]
      split <;> rfl
    | _ => rfl
  | _ => rfl

end SchedulerSystem
end InferenceCluster
