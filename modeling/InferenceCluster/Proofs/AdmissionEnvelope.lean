import InferenceCluster.Lib.Envelope
import InferenceCluster.Spec.RateLimiter
import Mathlib.Algebra.Order.Ring.Rat
import Mathlib.Tactic.NormNum
import Mathlib.Tactic.Ring

/-! The token bucket admits exactly what keeps every past window inside the envelope
`capacity + rate * length`: its one counter is the minimum of the room that the windows
leave. -/

namespace InferenceCluster
namespace TokenBucket

open Envelope

variable {K : Type} [Field K] [LinearOrder K]

/-- `b` is the bucket after refills at `starts` and the admitted requests `log`. -/
structure Tracks (capacity rate : K) (starts : List K) (log : List (K × K))
    (b : TokenBucket K) : Prop where
  capacity_eq : b.capacity = capacity
  rate_eq : b.rate = rate
  last : b.lastRefill ∈ starts
  le_last : ∀ s ∈ starts, s ≤ b.lastRefill
  log_mem : ∀ e ∈ log, e.1 ∈ starts
  log_nonneg : ∀ e ∈ log, 0 ≤ e.2
  tokens : ∀ x, x ≤ b.tokens ↔ Fits capacity rate starts log b.lastRefill x
  within : ∀ u v, u ≤ v → spentWithin log u v ≤ capacity + rate * (v - u)

variable [IsStrictOrderedRing K]

theorem tracks_init {capacity rate : K} (hrate : 0 ≤ rate) (hcap : 0 ≤ capacity) (now : K) :
    Tracks capacity rate [now] [] (init rate capacity now) := by
  refine ⟨rfl, rfl, by simp [init], by simp [init], by simp, by simp, fun x => ?_, ?_⟩
  · exact (fits_nil x).symm
  · intro u v huv
    have hmul : 0 ≤ rate * (v - u) := mul_nonneg hrate (sub_nonneg.mpr huv)
    exact add_nonneg hcap hmul

theorem Tracks.refill {capacity rate : K} {starts : List K} {log : List (K × K)}
    {b : TokenBucket K} (h : Tracks capacity rate starts log b) {now : K}
    (hnow : b.lastRefill ≤ now) : Tracks capacity rate (starts ++ [now]) log (b.refill now) := by
  refine ⟨h.capacity_eq, h.rate_eq, by simp [TokenBucket.refill], fun s hs => ?_, fun e he => ?_,
    h.log_nonneg, fun x => ?_, h.within⟩
  · rcases List.mem_append.mp hs with hs | hs
    · exact (h.le_last s hs).trans hnow
    · exact (List.mem_singleton.mp hs).le
  · exact List.mem_append_left _ (h.log_mem e he)
  · have hlog : ∀ e ∈ log, e.1 ≤ b.lastRefill ∧ 0 ≤ e.2 := fun e he =>
      ⟨h.le_last e.1 (h.log_mem e he), h.log_nonneg e he⟩
    simp only [TokenBucket.refill]
    rw [fits_advance h.last hlog hnow, ← h.tokens, le_min_iff, h.capacity_eq, h.rate_eq,
      sub_le_iff_le_add, mul_comm rate]

/-- A request that the refilled bucket covers is spent. -/
theorem Tracks.spend {capacity rate : K} {starts : List K} {log : List (K × K)}
    {b : TokenBucket K} (h : Tracks capacity rate starts log b) (hrate : 0 ≤ rate) {cost : K}
    (hcost : 0 ≤ cost) (hle : cost ≤ b.tokens) (n : ℕ) :
    Tracks capacity rate starts (log ++ [(b.lastRefill, cost)])
      { b with tokens := b.tokens - cost, totalAllowed := n } := by
  refine ⟨h.capacity_eq, h.rate_eq, h.last, h.le_last, fun e he => ?_, fun e he => ?_, fun x => ?_,
    fun u v huv => ?_⟩
  · rcases List.mem_append.mp he with he | he
    · exact h.log_mem e he
    · rw [List.mem_singleton.mp he]
      exact h.last
  · rcases List.mem_append.mp he with he | he
    · exact h.log_nonneg e he
    · rw [List.mem_singleton.mp he]
      exact hcost
  · rw [fits_spend h.le_last, ← h.tokens, le_sub_iff_add_le]
  · exact spentWithin_le_concat hrate h.log_mem h.last h.le_last ((h.tokens cost).mp hle)
      h.within huv

omit [IsStrictOrderedRing K] in
theorem Tracks.reject {capacity rate : K} {starts : List K} {log : List (K × K)}
    {b : TokenBucket K} (h : Tracks capacity rate starts log b) (n : ℕ) :
    Tracks capacity rate starts log { b with totalRejected := n } :=
  ⟨h.capacity_eq, h.rate_eq, h.last, h.le_last, h.log_mem, h.log_nonneg, h.tokens, h.within⟩

/-- One call adds its instant to the starts and, if it is admitted, itself to the log. -/
theorem Tracks.run (round : K → ℕ → K) {capacity rate : K} (hrate : 0 ≤ rate)
    (calls : List (BucketCall K)) {starts : List K} {log : List (K × K)} {b : TokenBucket K}
    (h : Tracks capacity rate starts log b)
    (hclock : (b.lastRefill :: calls.map BucketCall.now).Pairwise (· ≤ ·))
    (hcost : ∀ now cost, .acquire now cost ∈ calls → 0 ≤ cost) :
    Tracks capacity rate (starts ++ calls.map BucketCall.now)
      (log ++ b.admitted round calls) (b.run round calls) := by
  induction calls generalizing starts log b with
  | nil => simpa [admitted, TokenBucket.run] using h
  | cons call calls ih =>
    rw [List.map_cons, List.pairwise_cons] at hclock
    have hr := h.refill (hclock.1 call.now List.mem_cons_self)
    have hcost' : ∀ now cost, BucketCall.acquire now cost ∈ calls → 0 ≤ cost :=
      fun now cost hm => hcost now cost (List.mem_cons_of_mem _ hm)
    cases call with
    | acquire now cost =>
      by_cases hle : cost ≤ (b.refill now).tokens
      · have hs := hr.spend hrate (hcost now cost List.mem_cons_self) hle
          ((b.refill now).totalAllowed + 1)
        have h' := ih hs hclock.2 hcost'
        have hacq : b.acquire now cost = (true, { b.refill now with
            tokens := (b.refill now).tokens - cost
            totalAllowed := (b.refill now).totalAllowed + 1 }) := if_pos hle
        simpa [admitted, TokenBucket.run, step, hacq, List.append_assoc, TokenBucket.refill,
          BucketCall.now] using h'
      · have h' := ih (hr.reject ((b.refill now).totalRejected + 1)) hclock.2 hcost'
        have hacq : b.acquire now cost = (false, { b.refill now with
            totalRejected := (b.refill now).totalRejected + 1 }) := if_neg hle
        simpa [admitted, TokenBucket.run, step, hacq, BucketCall.now] using h'
    | stats now =>
      have h' := ih hr hclock.2 hcost'
      simpa [admitted, TokenBucket.run, step, TokenBucket.stats, BucketCall.now] using h'

/-! ### `stats` in between -/

omit [IsStrictOrderedRing K] in
theorem acquire_congr {b b' : TokenBucket K} {now : K} (h : b.refill now = b'.refill now)
    (cost : K) : b.acquire now cost = b'.acquire now cost := by
  unfold acquire
  rw [h]

/-- A refill on the way leaves a later refill as it was. -/
theorem refill_refill {b : TokenBucket K} (hrate : 0 ≤ b.rate) {s now : K}
    (hnow : s ≤ now) : (b.refill s).refill now = b.refill now := by
  have hmul : 0 ≤ (now - s) * b.rate := mul_nonneg (sub_nonneg.mpr hnow) hrate
  have hsum : b.tokens + (s - b.lastRefill) * b.rate + (now - s) * b.rate =
      b.tokens + (now - b.lastRefill) * b.rate := by ring
  unfold refill
  simp only
  rw [min_add, hsum, ← min_assoc, min_eq_left (le_add_of_nonneg_right hmul)]

/-- Runs from a bucket and from its refill at an instant before all calls decide alike. -/
theorem decisions_filter (round : K → ℕ → K) (calls : List (BucketCall K)) {b b' : TokenBucket K}
    (hrate : 0 ≤ b'.rate) {s : K} (hb : b = b' ∨ b = b'.refill s)
    (hclock : (s :: calls.map BucketCall.now).Pairwise (· ≤ ·)) :
    b.decisions round calls = b'.decisions round (calls.filter BucketCall.isAcquire) := by
  induction calls generalizing b b' s with
  | nil => rfl
  | cons call calls ih =>
    rw [List.map_cons, List.pairwise_cons] at hclock
    have hs : s ≤ call.now := hclock.1 call.now List.mem_cons_self
    have hr : b.refill call.now = b'.refill call.now := by
      rcases hb with rfl | rfl
      · rfl
      · exact refill_refill hrate hs
    cases call with
    | acquire now cost =>
      have hrate' : 0 ≤ (b'.acquire now cost).2.rate := by
        unfold acquire
        simp only
        split_ifs <;> exact hrate
      have hacq : b.acquire now cost = b'.acquire now cost := acquire_congr hr cost
      simp only [decisions, List.filter_cons, BucketCall.isAcquire, if_true, hacq]
      rw [ih hrate' (.inl rfl) hclock.2]
    | stats now =>
      have hf : (BucketCall.stats now :: calls).filter BucketCall.isAcquire =
          calls.filter BucketCall.isAcquire := by
        simp [BucketCall.isAcquire]
      rw [hf]
      exact ih hrate (.inr hr) hclock.2

/-! ### The envelope -/

/-- After any run of a fresh bucket, `acquire` admits a cost exactly when every window
that starts at the creation, at an earlier call or now keeps inside the envelope; no
window at all ever leaves it; and `stats` calls change no decision. -/
theorem admits_iff_envelope (round : K → ℕ → K) {capacity rate created : K} (hrate : 0 ≤ rate)
    (hcap : 0 ≤ capacity) (calls : List (BucketCall K))
    (hclock : (created :: calls.map BucketCall.now).Pairwise (· ≤ ·))
    (hcost : ∀ now cost, .acquire now cost ∈ calls → 0 ≤ cost) :
    (∀ t cost, (∀ s ∈ created :: calls.map BucketCall.now, s ≤ t) → 0 ≤ cost →
      ((((init rate capacity created).run round calls).acquire t cost).1 = true ↔
        ∀ s, s = created ∨ s ∈ calls.map BucketCall.now ∨ s = t →
          spentSince ((init rate capacity created).admitted round calls) s + cost ≤
            capacity + rate * (t - s))) ∧
    (∀ u v, u ≤ v → spentWithin ((init rate capacity created).admitted round calls) u v ≤
      capacity + rate * (v - u)) ∧
    (init rate capacity created).decisions round calls =
      (init rate capacity created).decisions round (calls.filter BucketCall.isAcquire) := by
  have h := (tracks_init hrate hcap created).run round hrate calls hclock hcost
  simp only [List.nil_append, List.singleton_append] at h
  refine ⟨fun t cost ht _ => ?_, h.within, ?_⟩
  · have hlast := ht _ h.last
    have htokens := (h.refill hlast).tokens cost
    have hacq : (((init rate capacity created).run round calls).acquire t cost).1 = true ↔
        cost ≤ (((init rate capacity created).run round calls).refill t).tokens := by
      unfold acquire
      simp only
      split_ifs with hle <;> simp [hle]
    rw [hacq, htokens]
    simp only [Fits, List.mem_append, List.mem_cons, List.not_mem_nil, or_false, or_assoc]
    exact Iff.rfl
  · exact decisions_filter round calls hrate (.inl rfl) hclock

/-- Two tokens a second, a burst of three: the fourth request of a second is rejected,
whether or not somebody looks at the statistics. -/
theorem admits_iff_envelope_burst :
    let calls : List (BucketCall ℚ) := [.acquire 0 1, .acquire 0 1, .stats 0, .acquire 0 1]
    (((init 2 3 0).run (fun x _ => x) calls).acquire 0 1).1 = false ∧
      spentWithin ((init 2 3 0).admitted (fun x _ => x) calls) 0 1 ≤ 3 + 2 * (1 - 0) := by
  intro calls
  have hrate : (0 : ℚ) ≤ 2 := by norm_num
  have hcap : (0 : ℚ) ≤ 3 := by norm_num
  have hclock : ((0 : ℚ) :: calls.map BucketCall.now).Pairwise (· ≤ ·) := by
    simp [calls, BucketCall.now]
  have h := admits_iff_envelope (fun x _ => x) hrate hcap calls hclock (by simp [calls])
  refine ⟨?_, h.2.1 0 1 (by norm_num)⟩
  norm_num [calls, run, step, acquire, TokenBucket.stats, refill, init]

end TokenBucket
end InferenceCluster
