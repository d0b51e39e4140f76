import InferenceCluster.Lib.Progress
import InferenceCluster.Proofs.AdmissionEnvelope
import InferenceCluster.Sanity.Scheduler
import InferenceCluster.Spec.Service

/-! Monitoring is transparent: a run of the service without its calls of `stats` is a run that
decides, serves and counts the same. What a call of `stats` refills, the next `acquire` would
have. -/

namespace InferenceCluster

variable {K : Type} [Field K] [LinearOrder K]

/-- The bucket `b` has been refilled since, and `b'` has not, or not as late. -/
structure TokenBucket.Behind (b b' : TokenBucket K) : Prop where
  rate : 0 ≤ b.rate
  refill : ∀ now, b.lastRefill ≤ now → b.refill now = b'.refill now

theorem TokenBucket.Behind.refill_left [IsStrictOrderedRing K] {b b' : TokenBucket K}
    (h : b.Behind b') {now : K} (hnow : b.lastRefill ≤ now) : (b.refill now).Behind b' := by
  refine ⟨h.rate, fun later hlater => ?_⟩
  have hlater' : now ≤ later := hlater
  rw [refill_refill h.rate hlater', h.refill later (hnow.trans hlater')]

/-- A call of `acquire` brings both to the same state. -/
theorem TokenBucket.Behind.acquire {b b' : TokenBucket K} (h : b.Behind b') {now : K}
    (hnow : b.lastRefill ≤ now) : b.acquire now = b'.acquire now ∧
      (b.acquire now).2.Behind (b'.acquire now).2 := by
  have heq : b.acquire now = b'.acquire now := acquire_congr (h.refill now hnow) _
  refine ⟨heq, ?_, fun later _ => by rw [heq]⟩
  have hrate : (b.acquire now).2.rate = b.rate := by
    unfold TokenBucket.acquire
    simp only
    split_ifs <;> rfl
  rw [hrate]
  exact h.rate

namespace SchedulerSystem

omit [Field K] [LinearOrder K] in
def withLimiter (s : SchedulerSystem K) (b : TokenBucket K) : SchedulerSystem K :=
  { s with scheduler.rateLimiter := b }

omit [Field K] in
theorem popStep_withLimiter (s : SchedulerSystem K) (b : TokenBucket K) (expired : Bool)
    (cont : Option (Request K) → WorkerPoint K) :
    (s.withLimiter b).popStep expired cont = (s.popStep expired cont).withLimiter b := by
  simp only [popStep, withLimiter]
  cases s.scheduler.queue.pop expired <;> rfl

omit [Field K] [LinearOrder K] in
theorem resolveStep_withLimiter (s : SchedulerSystem K) (b : TokenBucket K) (req : Request K)
    (o : Outcome) (done : WorkerPoint K) (raised : PyException → WorkerPoint K) :
    (s.withLimiter b).resolveStep req o done raised =
      (s.resolveStep req o done raised).withLimiter b := by
  simp only [resolveStep, withLimiter]
  cases s.futures.resolve req.ref o <;> rfl

omit [LinearOrder K] in
theorem account_withLimiter (s : SchedulerSystem K) (b : TokenBucket K)
    (batch : List (Request K)) (batchMs : K) :
    (s.withLimiter b).scheduler.account s.futures batch batchMs =
      ((s.scheduler.account s.futures batch batchMs).1,
        { (s.scheduler.account s.futures batch batchMs).2 with rateLimiter := b }) := by
  unfold Scheduler.account
  cases s.futures.tokens batch <;> rfl

/-- But for `submit`, no step looks at the rate limiter. -/
theorem step_withLimiter {s s' : SchedulerSystem K} {e : SchedulerEvent K} (b : TokenBucket K)
    (he : ∀ now req, e ≠ .submit now req) (hs : s.step e = some s') :
    (s.withLimiter b).step e = some (s'.withLimiter b) := by
  cases e with
  | submit now req => exact absurd rfl (he now req)
  | push req =>
    simp only [SchedulerSystem.step, SchedulerSystem.push] at hs
    split_ifs at hs with hmem
    obtain rfl := Option.some.inj hs
    simp [SchedulerSystem.step, SchedulerSystem.push, withLimiter, hmem]
  | cancel | stop =>
    obtain rfl := Option.some.inj hs
    rfl
  | worker a =>
    cases workerStepped hs with
    | poppedFirst hw | poppedMore hw =>
      have hw' : (s.withLimiter b).worker = _ := hw
      simp only [SchedulerSystem.step, workerStep, hw']
      exact congrArg some (popStep_withLimiter ..)
    | delivering hw | failing hw =>
      have hw' : (s.withLimiter b).worker = _ := hw
      simp only [SchedulerSystem.step, workerStep, hw', resolveStep_withLimiter]
    | @accounted batch batchMs hw =>
      have hacc := account_withLimiter s b batch batchMs
      simp only [withLimiter] at hacc
      rcases hfst : (s.scheduler.account s.futures batch batchMs).1 with e | u <;>
        simp [SchedulerSystem.step, workerStep, withLimiter, hw, hacc, hfst]
    | @ran batch r hw =>
      cases r <;> simp [SchedulerSystem.step, workerStep, withLimiter, hw]
    | started hw | checkedRunning hw | checkedFull hw | delivered hw | failed hw =>
      simp only [SchedulerSystem.step, workerStep, withLimiter, hw]

theorem submit_withLimiter {s : SchedulerSystem K} {b : TokenBucket K} {now : K}
    (h : s.scheduler.rateLimiter.acquire now = b.acquire now) (req : Request K) :
    (s.withLimiter b).submit now req = s.submit now req := by
  by_cases hacc : (b.acquire now).1 = true <;>
    simp [SchedulerSystem.submit, withLimiter, h, hacc]

theorem submit_rateLimiter (s : SchedulerSystem K) (now : K) (req : Request K) :
    (s.submit now req).scheduler.rateLimiter = (s.scheduler.rateLimiter.acquire now).2 := by
  simp only [SchedulerSystem.submit]
  split_ifs <;> rfl

theorem step_rateLimiter {s s' : SchedulerSystem K} {e : SchedulerEvent K}
    (he : ∀ now req, e ≠ .submit now req) (hs : s.step e = some s') :
    s'.scheduler.rateLimiter = s.scheduler.rateLimiter := by
  have h := step_withLimiter s.scheduler.rateLimiter he hs
  have hsame : s.withLimiter s.scheduler.rateLimiter = s := rfl
  rw [hsame, hs] at h
  exact congrArg (fun u => u.scheduler.rateLimiter) (Option.some.inj h)

end SchedulerSystem

namespace Service

/-- The service without a call of `stats`, and with a bucket that none has refilled. -/
def Unwatched (s t : Service K) : Prop :=
  ∃ b, s.system.scheduler.rateLimiter.Behind b ∧
    t = { s with system := s.system.withLimiter b, stats := .notCalled }

def isStats : ServiceEvent K → Bool
  | .stats _ => true
  | _ => false

/-- The clock of the rate limiter does not go backwards. -/
def ticks (s : Service K) : ServiceEvent K → Bool
  | .scheduler (.submit now _) => s.system.scheduler.rateLimiter.lastRefill ≤ now
  | .stats clock =>
    match s.stats with
    | .queued _ _ _ => s.system.scheduler.rateLimiter.lastRefill ≤ clock 0
    | _ => true
  | _ => true

variable [IsStrictOrderedRing K] [FloorRing K] {s s' t : Service K}

theorem Unwatched.stats (h : s.Unwatched t) {clock : ℕ → K}
    (hclock : s.ticks (.stats clock) = true) (hs : s.statsStep clock = some s') :
    s'.Unwatched t := by
  obtain ⟨b, hb, rfl⟩ := h
  simp only [ticks] at hclock
  unfold statsStep at hs
  cases hp : s.stats with
  | notCalled | returned =>
    rw [hp] at hs
    dsimp only at hs
    split_ifs at hs
    exact Option.some.inj hs ▸ ⟨b, hb, rfl⟩
  | queued avgBatch avgLatency queue =>
    rw [hp] at hclock hs
    exact Option.some.inj hs ▸ ⟨b, hb.refill_left (of_decide_eq_true hclock), rfl⟩
  | _ =>
    rw [hp] at hs
    exact Option.some.inj hs ▸ ⟨b, hb, rfl⟩

omit [IsStrictOrderedRing K] in
theorem Unwatched.step (h : s.Unwatched t) {e : ServiceEvent K} (hclock : s.ticks e = true)
    (he : isStats e = false) (hs : s.step e = some s') :
    ∃ t', t.step e = some t' ∧ s'.Unwatched t' := by
  obtain ⟨b, hb, rfl⟩ := h
  cases e with
  | stats clock => cases he
  | config req =>
    obtain rfl := Option.some.inj hs
    exact ⟨_, rfl, b, hb, rfl⟩
  | count =>
    simp only [Service.step, countStep] at hs
    split at hs
    · rename_i hw hcount
      obtain rfl := Option.some.inj hs
      exact ⟨_, by simp [Service.step, countStep, SchedulerSystem.withLimiter, hw, hcount], b, hb, rfl⟩
    · rename_i hw hcount
      obtain rfl := Option.some.inj hs
      exact ⟨_, by simp [Service.step, countStep, SchedulerSystem.withLimiter, hw, hcount], b, hb, rfl⟩
    · cases hs
  | scheduler e =>
    obtain ⟨system, hsys, rfl⟩ := Option.map_eq_some_iff.mp hs
    by_cases hsub : ∃ now req, e = .submit now req
    · obtain ⟨now, req, rfl⟩ := hsub
      obtain ⟨heq, hbehind⟩ := hb.acquire (of_decide_eq_true hclock)
      obtain rfl := Option.some.inj hsys
      refine ⟨_, congrArg some (congrArg (fun u => ({ s with system := u, stats := .notCalled } :
        Service K)) (SchedulerSystem.submit_withLimiter heq req)), (b.acquire now).2, ?_, ?_⟩
      · rw [SchedulerSystem.submit_rateLimiter]
        exact hbehind
      · rw [← heq, ← SchedulerSystem.submit_rateLimiter s.system now req]
        rfl
    · push Not at hsub
      refine ⟨_, ?_, b, ?_, rfl⟩
      · exact congrArg (Option.map _) (SchedulerSystem.step_withLimiter b hsub hsys)
      · rw [SchedulerSystem.step_rateLimiter hsub hsys]
        exact hb

variable {maxBatchSize : ℕ} {maxWaitMs rate burst now : K}

/-- Leave the calls of `stats` out of a run: what is left is a run that ends in the same state,
but for the rate limiter's refill, which makes no difference to any later `acquire`. -/
theorem transparent_stats (hrate : 0 ≤ rate) {events : List (ServiceEvent K)}
    (h : (machine maxBatchSize maxWaitMs rate burst now).Run events s)
    (hclock : (machine maxBatchSize maxWaitMs rate burst now).Meets (fun s e => s.ticks e) events) :
    ∃ b, (machine maxBatchSize maxWaitMs rate burst now).Run (events.filter fun e => !isStats e)
        { s with system := s.system.withLimiter b, stats := .notCalled } ∧
      ∀ later cost, s.system.scheduler.rateLimiter.lastRefill ≤ later →
        s.system.scheduler.rateLimiter.acquire later cost = b.acquire later cost := by
  have hsim : ∃ t, (machine maxBatchSize maxWaitMs rate burst now).Run
      (events.filter fun e => !isStats e) t ∧ s.Unwatched t := by
    refine h.filter_of_meets _ ⟨_, ⟨hrate, fun _ _ => rfl⟩, rfl⟩ (fun u t e u' hR hok hs he => ?_)
      (fun u t e u' hR hok hs he => hR.step hok (by simpa using he) hs) hclock
    cases e with
    | stats clock => exact hR.stats hok hs
    | config | count | scheduler => cases he
  obtain ⟨t, ht, b, hb, rfl⟩ := hsim
  exact ⟨b, ht, fun later cost hlater => TokenBucket.acquire_congr (hb.refill later hlater) cost⟩

/-- One token a second, and a look at the statistics on the way to the next token. -/
def watched : List (ServiceEvent ℚ) :=
  let req (ref : ℕ) : Request ℚ :=
    { ref, prompt := "", temperature := 1, topP := 1, arrivalTime := ref, requestId := "" }
  [.scheduler (.submit 0 (req 1)), .stats fun _ => 0, .stats fun _ => 0, .stats fun _ => 1 / 2,
    .scheduler (.submit (3 / 4) (req 2)), .scheduler (.submit 1 (req 3))]

theorem transparent_stats_watched : ∃ s b, (machine 8 50 1 1 0).Run watched s ∧
    (s.system.history.accepted, s.system.history.rejected.map Prod.fst) = ([1, 3], [2]) ∧
    (machine 8 50 1 1 0).Run (watched.filter fun e => !isStats e)
      { s with system := s.system.withLimiter b, stats := .notCalled } := by
  have hexec : ((machine 8 50 1 1 0).exec (machine 8 50 1 1 0).init watched).map (fun s =>
      (s.system.history.accepted, s.system.history.rejected.map Prod.fst)) = some ([1, 3], [2]) := by
    decide +kernel
  obtain ⟨s, hs, hhistory⟩ := Option.map_eq_some_iff.mp hexec
  have hr := (Machine.run_iff_exec _).mpr hs
  obtain ⟨b, hb, -⟩ :=
    transparent_stats (by decide) hr (Machine.meets_of_checks _ (by decide +kernel))
  exact ⟨s, b, hr, hhistory, hb⟩

end Service
end InferenceCluster
