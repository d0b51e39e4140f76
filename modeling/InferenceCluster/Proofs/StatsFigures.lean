import InferenceCluster.Proofs.Reconfiguration
import InferenceCluster.Sanity.Rounding
import Mathlib.Algebra.Order.BigOperators.Group.List
import Mathlib.Algebra.BigOperators.Group.Finset.Basic

/-! The figures of `stats`. The call reads them one by one beside the worker, the last ones without
the lock: each is the figure of the batches counted by the time it was read, the one in the middle
of its count included or not. -/

namespace InferenceCluster

variable {K : Type}

section Means

variable [Field K]

/-- The mean number of requests, 0 where there is no batch. -/
def meanSize (batches : List (List (Request K))) : K :=
  if batches.length > 0 then ((batches.map List.length).sum : ℕ) / (batches.length : ℕ) else 0

theorem SchedulerSystem.Sized.avgBatch_eq {bound : ℕ} {s : SchedulerSystem K} (h : s.Sized bound) :
    s.scheduler.avgBatch = meanSize s.history.completed := by
  rw [Scheduler.avgBatch, meanSize, h.batches, h.requests]

variable [LinearOrder K] [IsStrictOrderedRing K]

theorem meanSize_bounds {bound : ℕ} {batches : List (List (Request K))} (hne : batches ≠ [])
    (h : ∀ b ∈ batches, 1 ≤ b.length ∧ b.length ≤ bound) :
    1 ≤ meanSize batches ∧ meanSize batches ≤ bound := by
  have hpos : 0 < batches.length := List.length_pos_iff.mpr hne
  have hsum : batches.length ≤ (batches.map List.length).sum ∧
      (batches.map List.length).sum ≤ bound * batches.length := by
    clear hne hpos
    induction batches with
    | nil => simp
    | cons b batches ih =>
      have hb := h b List.mem_cons_self
      have hrest := ih fun c hc => h c (List.mem_cons_of_mem _ hc)
      simp only [List.map_cons, List.sum_cons, List.length_cons, Nat.mul_succ]
      omega
  have hpos' : (0 : K) < (batches.length : ℕ) := by exact_mod_cast hpos
  rw [meanSize, if_pos hpos, le_div_iff₀ hpos', div_le_iff₀ hpos', one_mul]
  exact ⟨by exact_mod_cast hsum.1, by exact_mod_cast hsum.2⟩

end Means

/-! ### The queue's part -/

section Queue

variable [Field K] [LinearOrder K] [FloorRing K]

theorem PriorityQueue.stats_counts (q : PriorityQueue K) (clock : ℕ → K) :
    ((q.stats clock).priorityCounts.map Prod.snd).sum = (q.stats clock).queueDepth := by
  have hsum := List.sum_map_count_dedup_eq_length (q.heap.map Request.priority)
  simpa [PriorityQueue.stats, Function.comp_def] using hsum

variable [IsStrictOrderedRing K]

omit [Field K] [FloorRing K] [IsStrictOrderedRing K] in
theorem waits_le_foldl_max (w : K) (ws : List K) : ∀ x ∈ w :: ws, x ≤ ws.foldl max w := by
  induction ws generalizing w with
  | nil => simp
  | cons v ws ih =>
    intro x hx
    rcases List.mem_cons.mp hx with rfl | hx
    · exact (le_max_left x v).trans (ih _ _ List.mem_cons_self)
    rcases List.mem_cons.mp hx with rfl | hx
    · exact (le_max_right w x).trans (ih _ _ List.mem_cons_self)
    · exact ih _ _ (List.mem_cons_of_mem _ hx)

theorem PriorityQueue.stats_mean_le_max (q : PriorityQueue K) (clock : ℕ → K) :
    (q.stats clock).meanWaitMs ≤ (q.stats clock).maxWaitMs := by
  simp only [PriorityQueue.stats]
  cases q.waitTimes clock with
  | nil => exact le_rfl
  | cons w ws =>
    have hpos : (0 : K) < ((w :: ws).length : ℕ) := by
      rw [List.length_cons]
      exact_mod_cast Nat.succ_pos _
    apply roundTo_mono
    apply mul_le_mul_of_nonneg_right _ (Nat.cast_nonneg _)
    rw [div_le_iff₀ hpos, mul_comm, ← nsmul_eq_mul]
    exact List.sum_le_card_nsmul (w :: ws) _ (waits_le_foldl_max w ws)

end Queue

/-! ### Calls beside the worker -/

section Readings

variable [Field K] [LinearOrder K] [FloorRing K]

def IsQueueStats (queue : QueueStats K) : Prop :=
  ∃ (q : PriorityQueue K) (clock : ℕ → K), queue = q.stats clock

/-- What an unlocked reading counts after an earlier one: as many batches or more, or one less, if the
count of a batch has been read in its middle. -/
def Torn (earlier later : List (List (Request K))) : Prop :=
  earlier <+: later ∨ ∃ b, earlier = later ++ [b]

omit [Field K] [LinearOrder K] [FloorRing K] in
theorem Torn.length_le {earlier later : List (List (Request K))} (h : Torn earlier later) :
    earlier.length ≤ later.length + 1 := by
  rcases h with h | ⟨b, rfl⟩
  · exact h.length_le.trans (Nat.le_succ _)
  · simp

/-- What has been read so far are figures of the batches that are counted by now, `counted`, or of
these and the one that is being counted, `begun`. -/
def StatsPoint.Read (counted begun : List (List (Request K))) : StatsPoint K → Prop
  | .notCalled => True
  | .averaged avgBatch _ => ∃ d, d <+: counted ∧ avgBatch = meanSize d
  | .queued avgBatch _ queue | .limited avgBatch _ queue _ =>
    IsQueueStats queue ∧ ∃ d, d <+: counted ∧ avgBatch = meanSize d
  | .batches avgBatch _ queue _ n => IsQueueStats queue ∧ ∃ d d', d <+: counted ∧ d <+: d' ∧
    d' <+: begun ∧ avgBatch = meanSize d ∧ n = d'.length
  | .requests avgBatch _ queue _ n total => IsQueueStats queue ∧ ∃ d d' d'', d <+: d' ∧ d <+: d'' ∧
    Torn d' d'' ∧ d' <+: begun ∧ d'' <+: begun ∧ avgBatch = meanSize d ∧ n = d'.length ∧
      total = (d''.map List.length).sum
  | .returned r => IsQueueStats r.queue ∧ ∃ d d' d'', d <+: d' ∧ d <+: d'' ∧ Torn d' d'' ∧
    d' <+: begun ∧ d'' <+: begun ∧ r.avgBatchSize = roundTo (meanSize d) 2 ∧
      r.batchesProcessed = d'.length ∧ r.requestsProcessed = (d''.map List.length).sum

theorem StatsPoint.Read.mono {counted counted' begun begun' : List (List (Request K))}
    {p : StatsPoint K} (h : p.Read counted begun) (hc : counted <+: counted')
    (hb : begun <+: begun') : p.Read counted' begun' := by
  cases p with
  | notCalled => trivial
  | averaged =>
    obtain ⟨d, hd, ha⟩ := h
    exact ⟨d, hd.trans hc, ha⟩
  | queued | limited =>
    obtain ⟨hq, d, hd, ha⟩ := h
    exact ⟨hq, d, hd.trans hc, ha⟩
  | batches =>
    obtain ⟨hq, d, d', hd, hd', hbegun, ha⟩ := h
    exact ⟨hq, d, d', hd.trans hc, hd', hbegun.trans hb, ha⟩
  | requests | returned =>
    obtain ⟨hq, d, d', d'', hd', hd'', htorn, hbegun', hbegun'', ha⟩ := h
    exact ⟨hq, d, d', d'', hd', hd'', htorn, hbegun'.trans hb, hbegun''.trans hb, ha⟩

end Readings

/-! ### The count of a batch -/

/-- The batch whose count the worker is at. -/
def WorkerPoint.atCount : WorkerPoint K → List (List (Request K))
  | .accounting batch => [batch]
  | .notStarted | .loopTop | .waitFirst | .collecting _ | .waitMore _ | .runBatch _
  | .delivering _ _ | .failing _ _ _ | .exited | .crashed _ => []

namespace SchedulerSystem

/-- The batches that are counted, and the one that is being counted. -/
def begun (s : SchedulerSystem K) : List (List (Request K)) :=
  s.history.completed ++ s.worker.atCount

/-- A section of another kind: no batch was at its count. -/
theorem begun_of_not_atCount {s s' : SchedulerSystem K} (hat : s.worker.atCount = [])
    (hcompleted : s'.history.completed = s.history.completed) : s.begun <+: s'.begun := by
  rw [begun, hat, List.append_nil, begun, hcompleted]
  exact List.prefix_append _ _

theorem begun_popStep [LinearOrder K] {s : SchedulerSystem K} (hat : s.worker.atCount = [])
    (expired : Bool) (cont : Option (Request K) → WorkerPoint K) :
    s.begun <+: (s.popStep expired cont).begun := by
  unfold popStep
  split <;> exact begun_of_not_atCount hat rfl

theorem begun_resolveStep {s : SchedulerSystem K} (hat : s.worker.atCount = []) (req : Request K)
    (o : Outcome) (done : WorkerPoint K) (raised : PyException → WorkerPoint K) :
    s.begun <+: (s.resolveStep req o done raised).begun := by
  unfold resolveStep
  split <;> exact begun_of_not_atCount hat rfl

theorem begun_step [Field K] [LinearOrder K] {s s' : SchedulerSystem K} {e : SchedulerEvent K}
    (hs : s.step e = some s') : s.begun <+: s'.begun := by
  cases e with
  | submit now req =>
    obtain rfl := Option.some.inj hs
    simp only [SchedulerSystem.submit]
    split_ifs <;> exact List.prefix_rfl
  | push req =>
    simp only [SchedulerSystem.step, SchedulerSystem.push] at hs
    split_ifs at hs
    obtain rfl := Option.some.inj hs
    exact List.prefix_rfl
  | cancel | stop =>
    obtain rfl := Option.some.inj hs
    exact List.prefix_rfl
  | worker a =>
    cases workerStepped hs with
    | poppedFirst hw | poppedMore hw => exact begun_popStep (by rw [hw]; rfl) _ _
    | delivering hw | failing hw => exact begun_resolveStep (by rw [hw]; rfl) _ _ _ _
    | @accounted batch batchMs hw =>
      rw [begun, hw, begun]
      exact List.prefix_append _ _
    | started hw | checkedRunning hw | checkedFull hw | ran hw | delivered hw | failed hw =>
      exact begun_of_not_atCount (by rw [hw]; rfl) rfl

theorem Sized.begun_prefix {bound : ℕ} {s : SchedulerSystem K} (h : s.Sized bound) :
    s.begun <+: s.history.served.map Prod.fst := by
  cases hw : s.worker with
  | accounting batch =>
    have hall := h.inFlight (by rw [hw]; rfl)
    rw [hall, begun, hw]
    exact List.prefix_rfl
  | _ =>
    rw [begun, hw, WorkerPoint.atCount, List.append_nil]
    exact h.counted

end SchedulerSystem

namespace Service

/-- In the middle of the locked section there is a batch at its count. -/
def InSection (s : Service K) : Prop :=
  s.count ≠ .unlocked → s.system.worker = .accounting s.counting

theorem batchesProcessed_eq {s : Service K} {bound : ℕ} (hsized : s.system.Sized bound)
    (hin : s.InSection) : ∃ d, s.system.history.completed <+: d ∧ d <+: s.system.begun ∧
      s.batchesProcessed = d.length := by
  have hlocked : s.count ≠ .unlocked → s.system.begun.length = s.system.scheduler.batchesProcessed + 1 :=
    fun hne => by
      rw [SchedulerSystem.begun, hin hne, hsized.batches]
      simp [WorkerPoint.atCount]
  have hpre : s.system.history.completed <+: s.system.begun := List.prefix_append _ _
  unfold batchesProcessed
  cases hc : s.count with
  | unlocked => exact ⟨_, List.prefix_rfl, hpre, hsized.batches⟩
  | batchesAdded | requestsAdded =>
    exact ⟨_, hpre, List.prefix_rfl, (hlocked (by rw [hc]; decide)).symm⟩

theorem requestsProcessed_eq {s : Service K} {bound : ℕ} (hsized : s.system.Sized bound)
    (hin : s.InSection) : ∃ d, (d = s.system.history.completed ∨ d = s.system.begun) ∧
      s.requestsProcessed = (d.map List.length).sum := by
  unfold requestsProcessed
  cases hc : s.count with
  | unlocked | batchesAdded => exact ⟨_, .inl rfl, hsized.requests⟩
  | requestsAdded =>
    refine ⟨_, .inr rfl, ?_⟩
    rw [SchedulerSystem.begun, hin (by rw [hc]; decide), hsized.requests]
    simp [WorkerPoint.atCount]

/-- Of the batches begun before, all or all but the last are counted. -/
theorem torn_completed {s : SchedulerSystem K} {d : List (List (Request K))} (h : d <+: s.begun) :
    Torn d s.history.completed := by
  unfold SchedulerSystem.begun at h
  cases hw : s.worker with
  | accounting batch =>
    rw [hw] at h
    exact (List.prefix_concat_iff.mp h).symm.imp_right fun heq => ⟨batch, heq⟩
  | _ =>
    rw [hw, WorkerPoint.atCount, List.append_nil] at h
    exact .inl h

variable [Field K] [LinearOrder K]

theorem inSection_schedulerStep {s s' : Service K} (h : s.InSection) {e : SchedulerEvent K}
    (hs : s.schedulerStep e = some s') : s'.InSection := by
  obtain ⟨system, hsys, rfl⟩ := Option.map_eq_some_iff.mp hs
  have hkept : system.worker = s.system.worker → (s.count ≠ .unlocked →
      system.worker = .accounting (counting { s with system })) := by
    intro hw hne
    have hat := h hne
    rw [counting, hw, hat]
  intro hne
  cases e with
  | worker a => exact absurd rfl hne
  | submit now req =>
    refine hkept ?_ hne
    obtain rfl := Option.some.inj hsys
    simp only [SchedulerSystem.submit]
    split_ifs <;> rfl
  | push req =>
    refine hkept ?_ hne
    simp only [SchedulerSystem.step, SchedulerSystem.push] at hsys
    split_ifs at hsys
    exact Option.some.inj hsys ▸ rfl
  | cancel | stop => exact hkept (Option.some.inj hsys ▸ rfl) hne

variable [FloorRing K]

/-- A section of `stats` reads the figures of the batches that are counted or begun by then. -/
theorem read_statsStep {s s' : Service K} (hsized : s.system.Sized 64) (hin : s.InSection)
    (h : s.stats.Read s.system.history.completed s.system.begun) {clock : ℕ → K}
    (hs : s.statsStep clock = some s') :
    s'.stats.Read s'.system.history.completed s'.system.begun := by
  have hnow : s.system.history.completed <+: s.system.begun := List.prefix_append _ _
  unfold statsStep at hs
  cases hp : s.stats with
  | notCalled | returned =>
    rw [hp] at hs
    dsimp only at hs
    split_ifs at hs
    obtain rfl := Option.some.inj hs
    exact ⟨_, List.prefix_rfl, hsized.avgBatch_eq⟩
  | averaged =>
    rw [hp] at h hs
    obtain rfl := Option.some.inj hs
    exact ⟨⟨_, clock, rfl⟩, h⟩
  | queued =>
    rw [hp] at h hs
    obtain rfl := Option.some.inj hs
    exact h
  | limited =>
    rw [hp] at h hs
    obtain rfl := Option.some.inj hs
    obtain ⟨hq, d, hd, ha⟩ := h
    obtain ⟨d', hcounted, hbegun, hn⟩ := batchesProcessed_eq hsized hin
    exact ⟨hq, d, d', hd, hd.trans hcounted, hbegun, ha, hn⟩
  | batches =>
    rw [hp] at h hs
    obtain rfl := Option.some.inj hs
    obtain ⟨hq, d, d', hd, hd', hbegun, ha, hn⟩ := h
    obtain ⟨d'', hwhich, htotal⟩ := requestsProcessed_eq hsized hin
    refine ⟨hq, d, d', d'', hd', ?_, ?_, hbegun, ?_, ha, hn, htotal⟩
    · rcases hwhich with rfl | rfl
      · exact hd
      · exact hd.trans hnow
    · rcases hwhich with rfl | rfl
      · exact torn_completed hbegun
      · exact .inl hbegun
    · rcases hwhich with rfl | rfl
      · exact hnow
      · exact List.prefix_rfl
  | requests =>
    rw [hp] at h hs
    obtain rfl := Option.some.inj hs
    obtain ⟨hq, d, d', d'', hd', hd'', htorn, hbegun', hbegun'', ha, hn, htotal⟩ := h
    exact ⟨hq, d, d', d'', hd', hd'', htorn, hbegun', hbegun'', congrArg (roundTo · 2) ha, hn, htotal⟩

/-- What a call of `stats` and its readings rest on. -/
structure Readings (s : Service K) : Prop where
  sized : s.system.Sized 64
  inSection : s.InSection
  read : s.stats.Read s.system.history.completed s.system.begun

theorem Readings.step {s s' : Service K} (h : s.Readings) {e : ServiceEvent K}
    (hs : s.step e = some s') : s'.Readings := by
  refine ⟨sized_step h.sized hs, ?_, ?_⟩
  · cases e with
    | config req => exact Option.some.inj hs ▸ h.inSection
    | stats clock =>
      obtain ⟨rateLimiter, stats, rfl⟩ := statsStep_cases hs
      exact h.inSection
    | count =>
      obtain ⟨hw, count, rfl⟩ := countStep_cases hs
      exact fun _ => hw
    | scheduler e => exact inSection_schedulerStep h.inSection hs
  · cases e with
    | config req => exact Option.some.inj hs ▸ h.read
    | stats clock => exact read_statsStep h.sized h.inSection h.read hs
    | count =>
      obtain ⟨-, count, rfl⟩ := countStep_cases hs
      exact h.read
    | scheduler e =>
      obtain ⟨system, hsys, rfl⟩ := Option.map_eq_some_iff.mp hs
      refine h.read.mono ?_ (SchedulerSystem.begun_step hsys)
      cases SchedulerSystem.batchStepped hsys with
      | same _ hcompleted | ran _ _ hcompleted =>
        rw [hcompleted]
      | counted _ _ hcompleted =>
        rw [hcompleted]
        exact List.prefix_append _ _

/-- A response of `stats`, given the batches counted so far, the one that is being counted
included. -/
structure Figures (begun : List (List (Request K))) (r : SchedulerStats K) : Prop where
  readings : ∃ d d' d'', d <+: d' ∧ d <+: d'' ∧ Torn d' d'' ∧ d' <+: begun ∧ d'' <+: begun ∧
    r.avgBatchSize = roundTo (meanSize d) 2 ∧ r.batchesProcessed = d'.length ∧
      r.requestsProcessed = (d''.map List.length).sum
  average : r.avgBatchSize = 0 ∨ 1 ≤ r.avgBatchSize ∧ r.avgBatchSize ≤ (64 : ℕ)
  requests : r.batchesProcessed ≤ r.requestsProcessed + 1
  depth : (r.queue.priorityCounts.map Prod.snd).sum = r.queue.queueDepth
  waits : r.queue.meanWaitMs ≤ r.queue.maxWaitMs

variable [IsStrictOrderedRing K] {maxBatchSize : ℕ} {maxWaitMs rate burst now : K}

/-- Whatever happens between the sections of the call: the figures of one response come from
batches counted earlier and later, the mean batch is never outside the limits of
`/scheduler/config`, and there are as many requests as batches or more, or one less where the
count of a batch has been read in its middle. -/
theorem stats_figures (hmax : maxBatchSize ≤ 64) {s : Service K}
    (h : (machine maxBatchSize maxWaitMs rate burst now).Reachable s) {r : SchedulerStats K}
    (hr : s.stats = .returned r) : Figures s.system.begun r := by
  obtain ⟨hsized, -, hread⟩ := Machine.Reachable.invariant
    (m := machine maxBatchSize maxWaitMs rate burst now) (I := Readings)
    ⟨SchedulerSystem.Sized.init hmax rate burst now, fun hne => absurd rfl hne, trivial⟩
    (fun _ _ _ hI hs => hI.step hs) h
  rw [hr] at hread
  obtain ⟨⟨q, clock, hqueue⟩, d, d', d'', hd', hd'', htorn, hbegun', hbegun'', havg, hbatches,
    hrequests⟩ := hread
  have hsizes : ∀ b ∈ s.system.begun, 1 ≤ b.length ∧ b.length ≤ 64 := by
    intro b hb
    obtain ⟨c, hc, rfl⟩ := List.mem_map.mp (hsized.begun_prefix.subset hb)
    exact hsized.served c hc
  refine ⟨⟨d, d', d'', hd', hd'', htorn, hbegun', hbegun'', havg, hbatches, hrequests⟩, ?_, ?_, ?_,
    ?_⟩
  · rcases eq_or_ne d [] with rfl | hne
    · left
      have hzero := roundTo_natCast (K := K) 0 2
      rw [Nat.cast_zero] at hzero
      simp [havg, meanSize, hzero]
    · right
      have hmean := meanSize_bounds (K := K) hne fun b hb =>
        hsizes b (hbegun'.subset (hd'.subset hb))
      rw [havg, ← Nat.cast_one]
      rw [← Nat.cast_one] at hmean
      exact ⟨le_roundTo hmean.1 2, roundTo_le hmean.2 2⟩
  · rw [hbatches, hrequests]
    refine htorn.length_le.trans (Nat.succ_le_succ ?_)
    have hone : ∀ n ∈ d''.map List.length, 1 ≤ n := by
      intro n hn
      obtain ⟨b, hb, rfl⟩ := List.mem_map.mp hn
      exact (hsizes b (hbegun''.subset hb)).1
    simpa using List.card_nsmul_le_sum _ 1 hone
  · rw [hqueue]
    exact q.stats_counts clock
  · rw [hqueue]
    exact q.stats_mean_le_max clock

/-- A batch of two is counted while a call reads: it finds the batch, and not yet its requests. -/
def overtaken : List (ServiceEvent ℚ) :=
  let req (ref : ℕ) : Request ℚ :=
    { ref, prompt := "", temperature := 1, topP := 1, arrivalTime := ref, requestId := "" }
  let served : List (ServiceEvent ℚ) := [.worker .start, .submit 0 (req 1), .push (req 1),
    .submit 0 (req 2), .push (req 2), .worker .checkRunning, .worker (.popFirst false),
    .worker (.checkFull false), .worker (.popMore false), .worker (.checkFull true),
    .worker (.runBatch (.error rateLimitExceeded)), .worker .resolve, .worker .resolve,
    .worker .resolve].map .scheduler
  served ++ [.stats fun _ => 5, .stats fun _ => 5, .stats fun _ => 5, .count, .stats fun _ => 5,
    .stats fun _ => 5, .count, .scheduler (.worker (.account 1)), .stats fun _ => 5]

theorem stats_figures_overtaken : ∃ s r, (machine 3 20 50 20 0).Run overtaken s ∧
    s.stats = .returned r ∧ (r.avgBatchSize, r.batchesProcessed, r.requestsProcessed) = (0, 1, 0) ∧
      Figures s.system.begun r := by
  have hexec : ((machine 3 20 50 20 0).exec (machine 3 20 50 20 0).init overtaken).map
      (fun s => match s.stats with
        | .returned r => some (r.avgBatchSize, r.batchesProcessed, r.requestsProcessed)
        | _ => none) = some (some (0, 1, 0)) := by
    decide +kernel
  obtain ⟨s, hs, hfigures⟩ := Option.map_eq_some_iff.mp hexec
  have hr := (Machine.run_iff_exec _).mpr hs
  cases hstats : s.stats with
  | returned r =>
    rw [hstats] at hfigures
    exact ⟨s, r, hr, hstats, Option.some.inj hfigures, stats_figures (by decide) ⟨_, hr⟩ hstats⟩
  | _ => simp [hstats] at hfigures

end Service
end InferenceCluster
