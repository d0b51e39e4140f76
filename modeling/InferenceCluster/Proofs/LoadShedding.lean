import InferenceCluster.Proofs.Reconfiguration
import InferenceCluster.Proofs.TransparentStats

/-! What reaches the model. The envelope of the rate limiter holds in the running service, and
since no request is served twice, it bounds the work of the model; but for the envelope no
request is turned away. -/

namespace InferenceCluster

open Envelope

variable {K : Type} [Field K] [LinearOrder K]

namespace TokenBucket

variable [IsStrictOrderedRing K]
variable {capacity rate : K} {starts : List K} {log : List (K × K)} {b : TokenBucket K}

theorem Tracks.admits_iff (h : Tracks capacity rate starts log b) {now : K}
    (hnow : b.lastRefill ≤ now) (cost : K) :
    (b.acquire now cost).1 = true ↔ Fits capacity rate (starts ++ [now]) log now cost := by
  have hadmits : (b.acquire now cost).1 = true ↔ cost ≤ (b.refill now).tokens := by
    unfold TokenBucket.acquire
    simp only
    split_ifs with hle <;> simp [hle]
  exact hadmits.trans ((h.refill hnow).tokens cost)

theorem Tracks.acquire (h : Tracks capacity rate starts log b) (hrate : 0 ≤ rate) {now : K}
    (hnow : b.lastRefill ≤ now) :
    Tracks capacity rate (starts ++ [now])
      (log ++ if (b.acquire now).1 then [(now, 1)] else []) (b.acquire now).2 := by
  have hrefill := h.refill hnow
  by_cases hle : 1 ≤ (b.refill now).tokens
  · have hacq : b.acquire now = (true, { b.refill now with
        tokens := (b.refill now).tokens - 1
        totalAllowed := (b.refill now).totalAllowed + 1 }) := if_pos hle
    rw [hacq, if_pos rfl]
    exact hrefill.spend hrate zero_le_one hle _
  · have hacq : b.acquire now = (false, { b.refill now with
        totalRejected := (b.refill now).totalRejected + 1 }) := if_neg hle
    rw [hacq, if_neg Bool.false_ne_true, List.append_nil]
    exact hrefill.reject _

end TokenBucket

namespace SchedulerSystem

theorem accepted_step {s s' : SchedulerSystem K} {e : SchedulerEvent K}
    (he : ∀ now req, e ≠ .submit now req) (hs : s.step e = some s') :
    s'.history.accepted = s.history.accepted := by
  cases e with
  | submit now req => exact absurd rfl (he now req)
  | push req =>
    simp only [SchedulerSystem.step, SchedulerSystem.push] at hs
    split_ifs at hs
    exact Option.some.inj hs ▸ rfl
  | cancel | stop => exact Option.some.inj hs ▸ rfl
  | worker a =>
    cases workerStepped hs with
    | poppedFirst | poppedMore =>
      unfold popStep
      split <;> rfl
    | delivering | failing =>
      unfold resolveStep
      split <;> rfl
    | _ => rfl

omit [Field K] [LinearOrder K] in
theorem Books.served_length_le {m : ℕ} {s : SchedulerSystem K} (h : s.Books m) :
    (s.history.served.map fun b => b.1.length).sum ≤ s.history.accepted.length := by
  have hsub : (s.history.served.flatMap fun b => b.1.map Request.ref).Subperm s.history.accepted := by
    refine List.subperm_ext_iff.mpr fun ref _ => ?_
    have hunresolved := unresolved_count_le s ref
    rw [h.served, h.places]
    omega
  simpa [List.length_flatMap] using hsub.length_le

end SchedulerSystem

namespace Service

/-- What the rate limiter's clock reads. -/
def reading (s : Service K) : ServiceEvent K → Option K
  | .scheduler (.submit now _) => some now
  | .stats clock =>
    match s.stats with
    | .queued _ _ _ => some (clock 0)
    | _ => none
  | _ => none

/-- An accepted request and when it is accepted. -/
def admission (s : Service K) : ServiceEvent K → Option (K × ℕ)
  | .scheduler (.submit now req) =>
    if (s.system.scheduler.rateLimiter.acquire now).1 then some (now, req.ref) else none
  | _ => none

theorem le_reading {s : Service K} {e : ServiceEvent K} (hclock : s.ticks e = true) :
    ∀ r ∈ s.reading e, s.system.scheduler.rateLimiter.lastRefill ≤ r := by
  intro r hr
  cases e with
  | config | count => cases hr
  | stats clock =>
    simp only [reading, ticks] at hr hclock
    split at hr <;> simp_all
  | scheduler e =>
    cases e with
    | submit now req =>
      obtain rfl := Option.some.inj hr
      exact of_decide_eq_true hclock
    | _ => cases hr

theorem admission_eq_none {s : Service K} {e : SchedulerEvent K}
    (he : ∀ now req, e ≠ .submit now req) :
    s.reading (.scheduler e) = none ∧ s.admission (.scheduler e) = none := by
  cases e with
  | submit now req => exact absurd rfl (he now req)
  | _ => exact ⟨rfl, rfl⟩

variable [FloorRing K] {s s' : Service K}

theorem accepted_admission {e : ServiceEvent K} (hs : s.step e = some s') :
    s'.system.history.accepted =
      s.system.history.accepted ++ (s.admission e).toList.map Prod.snd := by
  cases e with
  | config req =>
    obtain rfl := Option.some.inj hs
    exact (List.append_nil _).symm
  | stats clock =>
    obtain ⟨rateLimiter, stats, rfl⟩ := statsStep_cases hs
    exact (List.append_nil _).symm
  | count =>
    obtain ⟨-, count, rfl⟩ := countStep_cases hs
    exact (List.append_nil _).symm
  | scheduler e =>
    obtain ⟨system, hsys, rfl⟩ := Option.map_eq_some_iff.mp hs
    by_cases hsub : ∃ now req, e = .submit now req
    · obtain ⟨now, req, rfl⟩ := hsub
      obtain rfl := Option.some.inj hsys
      by_cases hacc : (s.system.scheduler.rateLimiter.acquire now).1 = true <;>
        simp [admission, SchedulerSystem.submit, hacc]
    · push Not at hsub
      rw [(admission_eq_none hsub).2]
      exact (SchedulerSystem.accepted_step hsub hsys).trans (List.append_nil _).symm

variable [IsStrictOrderedRing K]

theorem tracks_step {rate burst : K} (hrate : 0 ≤ rate) {starts : List K} {log : List (K × ℕ)}
    (h : TokenBucket.Tracks burst rate starts (log.map fun a => (a.1, 1))
      s.system.scheduler.rateLimiter) {e : ServiceEvent K} (hclock : s.ticks e = true)
    (hs : s.step e = some s') :
    TokenBucket.Tracks burst rate (starts ++ (s.reading e).toList)
      ((log ++ (s.admission e).toList).map fun a => (a.1, 1)) s'.system.scheduler.rateLimiter := by
  have hsame : s.reading e = none → s.admission e = none →
      s'.system.scheduler.rateLimiter = s.system.scheduler.rateLimiter →
      TokenBucket.Tracks burst rate (starts ++ (s.reading e).toList)
        ((log ++ (s.admission e).toList).map fun a => (a.1, 1))
        s'.system.scheduler.rateLimiter := by
    intro hreading hadmission heq
    simpa [hreading, hadmission, heq] using h
  cases e with
  | config req => exact hsame rfl rfl (Option.some.inj hs ▸ rfl)
  | stats clock =>
    simp only [ticks] at hclock
    simp only [Service.step, statsStep] at hs
    cases hp : s.stats with
    | notCalled | returned =>
      rw [hp] at hs
      dsimp only at hs
      split_ifs at hs
      exact hsame (by simp [reading, hp]) rfl (Option.some.inj hs ▸ rfl)
    | queued avgBatch avgLatency queue =>
      rw [hp] at hclock hs
      obtain rfl := Option.some.inj hs
      have hrefill := h.refill (of_decide_eq_true hclock)
      simpa [reading, admission, hp, TokenBucket.stats] using hrefill
    | _ =>
      rw [hp] at hs
      exact hsame (by simp [reading, hp]) rfl (Option.some.inj hs ▸ rfl)
  | count =>
    obtain ⟨-, count, rfl⟩ := countStep_cases hs
    exact hsame rfl rfl rfl
  | scheduler e =>
    obtain ⟨system, hsys, rfl⟩ := Option.map_eq_some_iff.mp hs
    by_cases hsub : ∃ now req, e = .submit now req
    · obtain ⟨now, req, rfl⟩ := hsub
      obtain rfl := Option.some.inj hsys
      have hacquire := h.acquire hrate (of_decide_eq_true hclock)
      rw [← SchedulerSystem.submit_rateLimiter s.system now req] at hacquire
      by_cases hacc : (s.system.scheduler.rateLimiter.acquire now).1 = true <;>
        simpa [reading, admission, hacc] using hacquire
    · push Not at hsub
      obtain ⟨hreading, hadmission⟩ := admission_eq_none (s := s) hsub
      exact hsame hreading hadmission (SchedulerSystem.step_rateLimiter hsub hsys)

variable {maxBatchSize : ℕ} {maxWaitMs rate burst now : K} {events : List (ServiceEvent K)}

theorem tracks_of_run (hrate : 0 ≤ rate) (hburst : 0 ≤ burst)
    (h : (machine maxBatchSize maxWaitMs rate burst now).Run events s)
    (hclock : (machine maxBatchSize maxWaitMs rate burst now).Meets (fun s e => s.ticks e) events) :
    TokenBucket.Tracks burst rate
        (now :: (machine maxBatchSize maxWaitMs rate burst now).shown reading events)
        (((machine maxBatchSize maxWaitMs rate burst now).shown admission events).map
          fun a => (a.1, 1)) s.system.scheduler.rateLimiter ∧
      ((machine maxBatchSize maxWaitMs rate burst now).shown admission events).map Prod.snd =
        s.system.history.accepted ∧
      ∀ r ∈ (machine maxBatchSize maxWaitMs rate burst now).shown reading events, now ≤ r := by
  refine Machine.Run.invariant_of_meets (I := fun is (s : Service K) => TokenBucket.Tracks burst rate
      (now :: (machine maxBatchSize maxWaitMs rate burst now).shown reading is)
      (((machine maxBatchSize maxWaitMs rate burst now).shown admission is).map
        fun a => (a.1, 1)) s.system.scheduler.rateLimiter ∧
      ((machine maxBatchSize maxWaitMs rate burst now).shown admission is).map Prod.snd =
        s.system.history.accepted ∧
      ∀ r ∈ (machine maxBatchSize maxWaitMs rate burst now).shown reading is, now ≤ r) ?_ ?_ h hclock
  · exact ⟨TokenBucket.tracks_init hrate hburst now, rfl, fun r hr => absurd hr List.not_mem_nil⟩
  rintro is u e u' hr ⟨htracks, haccepted, hreadings⟩ hclock hs
  rw [Machine.shown_snoc _ _ hr, Machine.shown_snoc _ _ hr]
  refine ⟨tracks_step hrate htracks hclock hs, ?_, fun r hmem => ?_⟩
  · rw [List.map_append, haccepted, accepted_admission hs]
  · rcases List.mem_append.mp hmem with hmem | hmem
    · exact hreadings r hmem
    · exact (htracks.le_last now List.mem_cons_self).trans
        (le_reading hclock r (Option.mem_toList.mp hmem))

/-- No window of time sees more requests accepted than the envelope allows, and at no time has
the model been given more. A request is turned away only where the envelope of a window that
ends with it forbids it. -/
theorem load_shedding (hmax : maxBatchSize ≤ 64) (hrate : 0 ≤ rate) (hburst : 0 ≤ burst)
    (h : (machine maxBatchSize maxWaitMs rate burst now).Run events s)
    (hok : (machine maxBatchSize maxWaitMs rate burst now).Meets (fun s e => s.allowed e) events)
    (hclock : (machine maxBatchSize maxWaitMs rate burst now).Meets (fun s e => s.ticks e) events) :
    ((machine maxBatchSize maxWaitMs rate burst now).shown admission events).map Prod.snd =
      s.system.history.accepted ∧
    (∀ u v, u ≤ v → (((machine maxBatchSize maxWaitMs rate burst now).shown admission events).countP
      (fun a => u ≤ a.1 ∧ a.1 ≤ v) : K) ≤ burst + rate * (v - u)) ∧
    ∀ later, s.system.scheduler.rateLimiter.lastRefill ≤ later →
      (((s.system.history.served.map fun b => b.1.length).sum : ℕ) : K) ≤
        burst + rate * (later - now) ∧
      ∀ req, (s.system.submit later req).history.accepted = s.system.history.accepted ++ [req.ref] ↔
        ∀ start, start = now ∨ start = later ∨
            start ∈ (machine maxBatchSize maxWaitMs rate burst now).shown reading events →
          (((machine maxBatchSize maxWaitMs rate burst now).shown admission events).countP
            (fun a => start ≤ a.1) : K) + 1 ≤ burst + rate * (later - start) := by
  obtain ⟨htracks, haccepted, hreadings⟩ := tracks_of_run hrate hburst h hclock
  refine ⟨haccepted, fun u v huv => ?_, fun later hlater => ⟨?_, fun req => ?_⟩⟩
  · rw [← spentWithin_ones]
    exact htracks.within u v huv
  · have hdated : ∀ a ∈ (machine maxBatchSize maxWaitMs rate burst now).shown admission events,
        now ≤ a.1 ∧ a.1 ≤ later := by
      intro a ha
      have hstart := htracks.log_mem _ (List.mem_map_of_mem ha)
      exact ⟨(List.mem_cons.mp hstart).elim (fun heq => heq.ge) (hreadings a.1),
        (htracks.le_last _ hstart).trans hlater⟩
    have hall := htracks.within now later ((htracks.le_last now List.mem_cons_self).trans hlater)
    rw [spentWithin_ones, List.countP_eq_length.mpr fun a ha => decide_eq_true (hdated a ha),
      ← List.length_map Prod.snd, haccepted] at hall
    exact (Nat.cast_le.mpr (books_of_run hmax h hok).served_length_le).trans hall
  · have hadmits := htracks.admits_iff hlater 1
    have hsubmit : (s.system.submit later req).history.accepted =
        s.system.history.accepted ++ [req.ref] ↔
          (s.system.scheduler.rateLimiter.acquire later).1 = true := by
      simp only [SchedulerSystem.submit]
      split_ifs with hacc <;> simp [hacc]
    rw [hsubmit, hadmits]
    simp only [Fits, spentSince_ones, List.mem_append, List.mem_cons, List.not_mem_nil, or_false]
    exact forall_congr' fun start => by rw [or_assoc, or_comm (b := start = later)]

/-- The second request comes too early. -/
theorem load_shedding_watched : ∃ s, (machine 8 50 1 1 0).Run watched s ∧
    ((machine 8 50 1 1 0).shown admission watched).map Prod.snd = [1, 3] ∧
    ∀ u v, u ≤ v → (((machine (8 : ℕ) (50 : ℚ) 1 1 0).shown admission watched).countP
      (fun a => u ≤ a.1 ∧ a.1 ≤ v) : ℚ) ≤ 1 + 1 * (v - u) := by
  have hexec : ((machine 8 50 1 1 0).exec (machine 8 50 1 1 0).init watched).map
      (fun s => s.system.history.accepted) = some [1, 3] := by
    decide +kernel
  obtain ⟨s, hs, haccepted⟩ := Option.map_eq_some_iff.mp hexec
  have hr := (Machine.run_iff_exec _).mpr hs
  have hshed := load_shedding (by decide) (by decide) (by decide) hr
    (Machine.meets_of_checks _ (by decide +kernel)) (Machine.meets_of_checks _ (by decide +kernel))
  exact ⟨s, hr, hshed.1.trans haccepted, hshed.2.1⟩

end Service
end InferenceCluster
