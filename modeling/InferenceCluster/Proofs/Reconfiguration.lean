import InferenceCluster.Lib.Progress
import InferenceCluster.Proofs.ExactlyOnce
import InferenceCluster.Sanity.Service

/-! Reconfiguration at runtime. Whatever `/scheduler/config` changes and when, service stays
exactly once; and a lowered limit is obeyed from the next batch on. -/

namespace InferenceCluster

variable {K : Type}

theorem SchedulerSystem.ExactlyOnce.of_withLimit {s : SchedulerSystem K} {m limit : ℕ}
    (h : (s.withLimit limit).ExactlyOnce m) : s.ExactlyOnce m :=
  ⟨h.place, h.once, h.rejected, h.pending, h.resolved, h.ownBatch, h.running, h.served,
    h.completed, h.completedResolved, h.processed, h.crashed⟩

/-- The waiting batch has room for one more. -/
theorem WorkerPoint.within_gathered {bound : ℕ} {w : WorkerPoint K} (h : w.Within bound) :
    w.Within (w.gathered.length + 1) := by
  cases w with
  | collecting | runBatch => exact ⟨h.1, Nat.le_succ _⟩
  | waitMore => exact ⟨h.1, Nat.lt_succ_self _⟩
  | _ => trivial

namespace Service

variable [Field K] [LinearOrder K]

/-! ### What the two calls leave alone -/

theorem limit_config {s : Service K} (h : s.system.scheduler.maxBatchSize ≤ 64)
    (req : SchedulerConfigRequest K) : (s.config req).system.scheduler.maxBatchSize ≤ 64 := by
  cases hn : req.maxBatchSize with
  | none => simpa [config, hn] using h
  | some n => simpa [config, hn] using (req.sizeBounds n hn).2

theorem sized_config {bound : ℕ} {s : Service K} (h : s.system.Sized bound)
    (req : SchedulerConfigRequest K)
    (hlim : (s.config req).system.scheduler.maxBatchSize ≤ bound) :
    (s.config req).system.Sized bound :=
  ⟨hlim, h.within, h.served, h.counted, h.inFlight, h.batches, h.requests⟩

omit [Field K] [LinearOrder K] in
theorem countStep_cases {s s' : Service K} (hs : s.countStep = some s') :
    s.system.worker = .accounting s.counting ∧ ∃ count, s' = { s with count } := by
  unfold countStep at hs
  split at hs
  · rename_i batch hw _
    exact ⟨by rw [counting, hw], _, (Option.some.inj hs).symm⟩
  · rename_i batch hw _
    exact ⟨by rw [counting, hw], _, (Option.some.inj hs).symm⟩
  · cases hs

variable [FloorRing K]

/-- A section of `stats` changes nothing of the scheduler but the rate limiter's refill. -/
theorem statsStep_cases {s s' : Service K} {clock : ℕ → K} (hs : s.statsStep clock = some s') :
    ∃ rateLimiter stats, s' = { s with
      system.scheduler.rateLimiter := rateLimiter
      stats := stats } := by
  unfold statsStep at hs
  cases hp : s.stats <;> rw [hp] at hs
  case notCalled | returned =>
    dsimp only at hs
    split_ifs at hs
    exact ⟨_, _, (Option.some.inj hs).symm⟩
  all_goals exact ⟨_, _, (Option.some.inj hs).symm⟩

theorem sized_step {s s' : Service K} (h : s.system.Sized 64) {e : ServiceEvent K}
    (hs : s.step e = some s') : s'.system.Sized 64 := by
  cases e with
  | config req =>
    obtain rfl := Option.some.inj hs
    exact sized_config h req (limit_config h.limit req)
  | stats clock =>
    obtain ⟨rateLimiter, stats, rfl⟩ := statsStep_cases hs
    exact ⟨h.limit, h.within, h.served, h.counted, h.inFlight, h.batches, h.requests⟩
  | count =>
    obtain ⟨-, count, rfl⟩ := countStep_cases hs
    exact h
  | scheduler e =>
    obtain ⟨system, hsys, rfl⟩ := Option.map_eq_some_iff.mp hs
    exact h.step (by decide) hsys

/-- The books, kept as if the limit were 64 all the time. -/
theorem books_step {s s' : Service K} (h : (s.system.withLimit 64).Books 64)
    (hlim : s.system.scheduler.maxBatchSize ≤ 64) {e : ServiceEvent K} (hok : s.allowed e = true)
    (hs : s.step e = some s') : (s'.system.withLimit 64).Books 64 := by
  cases e with
  | config req =>
    obtain rfl := Option.some.inj hs
    exact h
  | stats clock =>
    obtain ⟨rateLimiter, stats, rfl⟩ := statsStep_cases hs
    exact h.move rfl rfl rfl rfl (fun _ => rfl) rfl rfl h.point
  | count =>
    obtain ⟨-, count, rfl⟩ := countStep_cases hs
    exact h
  | scheduler e =>
    obtain ⟨system, hsys, rfl⟩ := Option.map_eq_some_iff.mp hs
    exact h.step (by decide) ((SchedulerSystem.allowed_early s.system 64 e).trans hok)
      (SchedulerSystem.step_withLimit hlim hsys)

variable {maxBatchSize : ℕ} {maxWaitMs rate burst now : K}

theorem sized_of_reachable (hmax : maxBatchSize ≤ 64) {s : Service K}
    (h : (machine maxBatchSize maxWaitMs rate burst now).Reachable s) : s.system.Sized 64 :=
  Machine.Reachable.invariant (I := fun s => s.system.Sized 64)
    (SchedulerSystem.Sized.init hmax rate burst now) (fun _ _ _ hI hs => sized_step hI hs) h

theorem books_of_run (hmax : maxBatchSize ≤ 64) {events : List (ServiceEvent K)} {s : Service K}
    (h : (machine maxBatchSize maxWaitMs rate burst now).Run events s)
    (hok : (machine maxBatchSize maxWaitMs rate burst now).Meets (fun s e => s.allowed e) events) :
    (s.system.withLimit 64).Books 64 := by
  refine Machine.Run.invariant_of_meets (I := fun _ s => (s.system.withLimit 64).Books 64)
    (SchedulerSystem.Books.init 64 rate burst now) ?_ h hok
  intro is u e u' hr hI hok hs
  exact books_step hI (sized_of_reachable hmax ⟨is, hr⟩).limit hok hs

/-- Whatever the interleaving of the API threads, the worker, reconfigurations and calls of
`stats`. -/
theorem reconfigured_exactly_once (hmax : maxBatchSize ≤ 64) {events : List (ServiceEvent K)}
    {s : Service K} (h : (machine maxBatchSize maxWaitMs rate burst now).Run events s)
    (hok : (machine maxBatchSize maxWaitMs rate burst now).Meets (fun s e => s.allowed e) events) :
    s.system.ExactlyOnce 64 :=
  (books_of_run hmax h hok).exactlyOnce.of_withLimit

/-! ### A lowered limit -/

/-- The event gives no new limit. -/
def keepsLimit : ServiceEvent K → Bool
  | .config req => req.maxBatchSize.isNone
  | .stats _ | .count | .scheduler _ => true

/-- What holds from the moment on at which the limit is `limit`: the batch in hand, of `size`
requests, may be finished with one more. -/
structure Obeys (limit size : ℕ) (before : List (Served K)) (s : Service K) : Prop where
  current : s.system.scheduler.maxBatchSize = limit
  served : ∃ new, s.system.history.served = before ++ new ∧ (∀ b ∈ new.tail, b.1.length ≤ limit) ∧
    (∀ b ∈ new.head?, b.1.length ≤ max limit (size + 1)) ∧
      s.system.worker.Within (if new = [] then max limit (size + 1) else limit)

theorem obeys_step {limit size : ℕ} (hpos : 1 ≤ limit) {before : List (Served K)} {s s' : Service K}
    (h : Obeys limit size before s) {e : ServiceEvent K} (hkeep : keepsLimit e = true)
    (hs : s.step e = some s') : Obeys limit size before s' := by
  obtain ⟨new, hserved, htail, hhead, hwithin⟩ := h.served
  cases e with
  | config req =>
    obtain rfl := Option.some.inj hs
    have hnone : req.maxBatchSize = none := by simpa [keepsLimit] using hkeep
    refine ⟨?_, new, hserved, htail, hhead, hwithin⟩
    simpa [config, hnone] using h.current
  | stats clock =>
    obtain ⟨rateLimiter, stats, rfl⟩ := statsStep_cases hs
    exact ⟨h.current, new, hserved, htail, hhead, hwithin⟩
  | count =>
    obtain ⟨-, count, rfl⟩ := countStep_cases hs
    exact ⟨h.current, new, hserved, htail, hhead, hwithin⟩
  | scheduler e =>
    obtain ⟨system, hsys, rfl⟩ := Option.map_eq_some_iff.mp hs
    refine ⟨(SchedulerSystem.maxBatchSize_step hsys).trans h.current, ?_⟩
    have hle : s.system.scheduler.maxBatchSize ≤ if new = [] then max limit (size + 1) else limit := by
      rw [h.current]
      split_ifs
      · exact le_max_left ..
      · exact le_rfl
    cases SchedulerSystem.batchStepped hsys with
    | same hserved' _ _ _ _ hstay =>
      refine ⟨new, hserved'.trans hserved, htail, hhead, hstay _ hle ?_ hwithin⟩
      rw [h.current] at hle
      exact hpos.trans hle
    | @ran batch r hw hserved' _ _ _ _ hstay =>
      rw [hw] at hwithin
      refine ⟨new ++ [(batch, r)], by rw [hserved', hserved, List.append_assoc], ?_, ?_, hstay _⟩
      · intro b hb
        cases new with
        | nil => simp at hb
        | cons c new =>
          rcases List.mem_append.mp hb with hb | hb
          · exact htail b hb
          · obtain rfl := List.mem_singleton.mp hb
            simpa using hwithin.2
      · intro b hb
        cases new with
        | nil =>
          obtain rfl : (batch, r) = b := by simpa using hb
          simpa using hwithin.2
        | cons c new => exact hhead b hb
    | counted hw hserved' _ _ _ _ hstay =>
      exact ⟨new, hserved'.trans hserved, htail, hhead, hstay _⟩

theorem limit_pos_step {s s' : Service K} (h : 1 ≤ s.system.scheduler.maxBatchSize)
    {e : ServiceEvent K} (hs : s.step e = some s') : 1 ≤ s'.system.scheduler.maxBatchSize := by
  cases e with
  | config req =>
    obtain rfl := Option.some.inj hs
    cases hn : req.maxBatchSize with
    | none => simpa [config, hn] using h
    | some n => simpa [config, hn] using (req.sizeBounds n hn).1
  | stats clock =>
    obtain ⟨rateLimiter, stats, rfl⟩ := statsStep_cases hs
    exact h
  | count =>
    obtain ⟨-, count, rfl⟩ := countStep_cases hs
    exact h
  | scheduler e =>
    obtain ⟨system, hsys, rfl⟩ := Option.map_eq_some_iff.mp hs
    exact (SchedulerSystem.maxBatchSize_step hsys).symm ▸ h

/-- From a state on in which no further change of the limit follows, every batch but the first
is within the limit; and the first is, or it is what was gathered before with at most one
request more. -/
theorem lowered_limit_obeyed (hmax : 1 ≤ maxBatchSize ∧ maxBatchSize ≤ 64)
    {before after : List (ServiceEvent K)} {s t : Service K}
    (hs : (machine maxBatchSize maxWaitMs rate burst now).Run before s)
    (ht : (machine maxBatchSize maxWaitMs rate burst now).Run (before ++ after) t)
    (hafter : ∀ e ∈ after, keepsLimit e = true) :
    ∃ new, t.system.history.served = s.system.history.served ++ new ∧
      (∀ b ∈ new.tail, b.1.length ≤ s.system.scheduler.maxBatchSize) ∧
      ∀ b ∈ new.head?, b.1.length ≤
        max s.system.scheduler.maxBatchSize (s.system.worker.gathered.length + 1) := by
  have hpos : 1 ≤ s.system.scheduler.maxBatchSize :=
    Machine.Reachable.invariant (I := fun s : Service K => 1 ≤ s.system.scheduler.maxBatchSize)
      hmax.1 (fun _ _ _ hI hs => limit_pos_step hI hs) ⟨before, hs⟩
  have hwithin := WorkerPoint.within_gathered (sized_of_reachable hmax.2 ⟨before, hs⟩).within
  have hstart : Obeys s.system.scheduler.maxBatchSize s.system.worker.gathered.length
      s.system.history.served s := by
    refine ⟨rfl, [], (List.append_nil _).symm, ?_, ?_, ?_⟩
    · simp
    · simp
    · rw [if_pos rfl]
      exact hwithin.mono (le_max_right ..)
  have hend := Machine.exec_invariant (J := Obeys s.system.scheduler.maxBatchSize
      s.system.worker.gathered.length s.system.history.served) _
    (fun u e u' hmem hJ hu => obeys_step hpos hJ (hafter e hmem) hu) hstart
    (Machine.exec_of_run _ hs ht)
  obtain ⟨new, hserved, htail, hhead, -⟩ := hend.served
  exact ⟨new, hserved, htail, hhead⟩

/-- Three requests wait, and the worker has the first in hand. -/
def gathering : List (ServiceEvent ℚ) :=
  let req (ref : ℕ) : Request ℚ :=
    { ref, prompt := "", temperature := 1, topP := 1, arrivalTime := ref, requestId := "" }
  let accept (ref : ℕ) : List (ServiceEvent ℚ) :=
    [.scheduler (.submit 0 (req ref)), .scheduler (.push (req ref))]
  .scheduler (.worker .start) :: (accept 1 ++ accept 2 ++ accept 3) ++
    [.scheduler (.worker .checkRunning), .scheduler (.worker (.popFirst false)),
      .scheduler (.worker (.checkFull false)), .config ⟨some 1, none, by simp, by simp⟩]

/-- The batch in hand gets a second request, the next one does not. -/
def gathered : List (ServiceEvent ℚ) :=
  [.scheduler (.worker (.popMore false)), .stats fun _ => 0,
    .scheduler (.worker (.checkFull false)),
    .scheduler (.worker (.runBatch (.ok [⟨"a", 1, 1⟩, ⟨"b", 1, 2⟩]))), .scheduler (.worker .resolve),
    .scheduler (.worker .resolve), .scheduler (.worker .resolve), .config ⟨none, some 5, by simp,
      by simp; norm_num⟩,
    .scheduler (.worker (.account 1)), .scheduler (.worker .checkRunning),
    .scheduler (.worker (.popFirst false)), .scheduler (.worker (.checkFull false)),
    .scheduler (.worker (.runBatch (.error rateLimitExceeded)))]

theorem reconfigured_exactly_once_gathered : ∃ s,
    (machine 3 20 50 20 0).Run (gathering ++ gathered) s ∧
      s.system.history.served.map (fun b => b.1.length) = [2, 1] ∧ s.system.ExactlyOnce 64 := by
  have hexec : ((machine 3 20 50 20 0).exec (machine 3 20 50 20 0).init
      (gathering ++ gathered)).map
      (fun s => s.system.history.served.map fun b => b.1.length) = some [2, 1] := by
    decide +kernel
  obtain ⟨s, hs, hsizes⟩ := Option.map_eq_some_iff.mp hexec
  have hr := (Machine.run_iff_exec _).mpr hs
  have hok : (machine (3 : ℕ) (20 : ℚ) 50 20 0).Meets (fun s e => s.allowed e)
      (gathering ++ gathered) := Machine.meets_of_checks _ (by decide +kernel)
  exact ⟨s, hr, hsizes, reconfigured_exactly_once (by decide) hr hok⟩

theorem lowered_limit_obeyed_gathered : ∃ s t, (machine 3 20 50 20 0).Run gathering s ∧
    (machine 3 20 50 20 0).Run (gathering ++ gathered) t ∧ s.system.scheduler.maxBatchSize = 1 ∧
      ∃ new, t.system.history.served = s.system.history.served ++ new ∧
        (∀ b ∈ new.tail, b.1.length ≤ s.system.scheduler.maxBatchSize) ∧
        ∀ b ∈ new.head?, b.1.length ≤
          max s.system.scheduler.maxBatchSize (s.system.worker.gathered.length + 1) := by
  have hexec : ((machine 3 20 50 20 0).exec (machine 3 20 50 20 0).init gathering).map
      (fun s => s.system.scheduler.maxBatchSize) = some 1 := by
    decide +kernel
  obtain ⟨s, hs, hlimit⟩ := Option.map_eq_some_iff.mp hexec
  have hexec' : ((machine 3 20 50 20 0).exec (machine 3 20 50 20 0).init
      (gathering ++ gathered)).isSome = true := by
    decide +kernel
  obtain ⟨t, ht⟩ := Option.isSome_iff_exists.mp hexec'
  have hs := (Machine.run_iff_exec _).mpr hs
  have ht := (Machine.run_iff_exec _).mpr ht
  exact ⟨s, t, hs, ht, hlimit, lowered_limit_obeyed (by decide) hs ht (by decide +kernel)⟩

end Service
end InferenceCluster
