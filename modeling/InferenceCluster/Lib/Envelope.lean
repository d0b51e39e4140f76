import Mathlib.Algebra.BigOperators.Group.List.Basic
import Mathlib.Algebra.Order.BigOperators.Group.List
import Mathlib.Algebra.Order.Field.Basic
import Mathlib.Data.Finset.Max
import Mathlib.Tactic.Linarith

/-! Affine envelopes `capacity + rate * length` over a log of dated amounts. `Fits`
says that an amount, spent now, keeps every window that starts at one of a list of
instants inside the envelope. The rules say how `Fits` changes when time passes and
when an amount is spent; they never look at more than the last instant. -/

universe u

namespace Envelope

variable {K : Type u} [Field K] [LinearOrder K]

/-- What a log of pairs (instant, amount) spends from `s` on. -/
def spentSince (log : List (K × K)) (s : K) : K :=
  ((log.filter fun e => s ≤ e.1).map Prod.snd).sum

/-- What it spends within `[u, v]`. -/
def spentWithin (log : List (K × K)) (u v : K) : K :=
  ((log.filter fun e => u ≤ e.1 ∧ e.1 ≤ v).map Prod.snd).sum

@[simp] theorem spentSince_nil (s : K) : spentSince [] s = 0 := rfl

theorem spentSince_concat (log : List (K × K)) (t c s : K) :
    spentSince (log ++ [(t, c)]) s = spentSince log s + if s ≤ t then c else 0 := by
  unfold spentSince
  rw [List.filter_append, List.map_append, List.sum_append]
  by_cases h : s ≤ t <;> simp [h]

theorem spentWithin_concat (log : List (K × K)) (t c u v : K) :
    spentWithin (log ++ [(t, c)]) u v =
      spentWithin log u v + if u ≤ t ∧ t ≤ v then c else 0 := by
  unfold spentWithin
  rw [List.filter_append, List.map_append, List.sum_append]
  by_cases h : u ≤ t ∧ t ≤ v <;> simp [h]

/-- Unit amounts are counted. -/
theorem spentSince_ones {ι : Type u} (log : List (K × ι)) (s : K) :
    spentSince (log.map fun a => (a.1, (1 : K))) s = (log.countP fun a => s ≤ a.1 : ℕ) := by
  rw [spentSince, List.filter_map, List.map_map, List.countP_eq_length_filter]
  simp [Function.comp_def]

theorem spentWithin_ones {ι : Type u} (log : List (K × ι)) (u v : K) :
    spentWithin (log.map fun a => (a.1, (1 : K))) u v =
      (log.countP fun a => u ≤ a.1 ∧ a.1 ≤ v : ℕ) := by
  rw [spentWithin, List.filter_map, List.map_map, List.countP_eq_length_filter]
  simp [Function.comp_def]

theorem spentSince_eq_zero {log : List (K × K)} {s : K} (h : ∀ e ∈ log, e.1 < s) :
    spentSince log s = 0 := by
  have hnil : log.filter (fun e => s ≤ e.1) = [] := by
    refine List.filter_eq_nil_iff.mpr fun e he => ?_
    simpa using h e he
  unfold spentSince
  rw [hnil]
  rfl

/-- A window that reaches the last entry is determined by its start. -/
theorem spentWithin_eq_spentSince {log : List (K × K)} {u v : K} (h : ∀ e ∈ log, e.1 ≤ v) :
    spentWithin log u v = spentSince log u := by
  unfold spentWithin spentSince
  congr 2
  refine List.filter_congr fun e he => ?_
  simp [h e he]

/-- Moving the start of a window up to the next instant that matters loses nothing. -/
theorem exists_start {log : List (K × K)} {starts : List K} (hlog : ∀ e ∈ log, e.1 ∈ starts)
    {u t : K} (ht : t ∈ starts) (hut : u ≤ t) :
    ∃ s ∈ starts, u ≤ s ∧ spentSince log u = spentSince log s := by
  obtain ⟨s, hs, hmin⟩ := (starts.toFinset.filter (u ≤ ·)).exists_min_image id
    ⟨t, by simp [ht, hut]⟩
  rw [Finset.mem_filter, List.mem_toFinset] at hs
  refine ⟨s, hs.1, hs.2, ?_⟩
  unfold spentSince
  congr 2
  refine List.filter_congr fun e he => ?_
  have hiff : u ≤ e.1 ↔ s ≤ e.1 := by
    constructor
    · intro hue
      exact hmin e.1 (by simp [hlog e he, hue])
    · exact hs.2.trans
  simp [hiff]

/-- Spending `x` at `t` keeps every window from one of `starts` to `t` inside the
envelope. -/
def Fits (capacity rate : K) (starts : List K) (log : List (K × K)) (t x : K) : Prop :=
  ∀ s ∈ starts, spentSince log s + x ≤ capacity + rate * (t - s)

variable {capacity rate : K} {starts : List K} {log : List (K × K)} {t : K}

theorem fits_nil (x : K) : Fits capacity rate [t] [] t x ↔ x ≤ capacity := by
  simp [Fits]

/-- An amount is spent at the last instant: what fits shrinks by it. -/
theorem fits_spend (hs : ∀ s ∈ starts, s ≤ t) (c x : K) :
    Fits capacity rate starts (log ++ [(t, c)]) t x ↔ Fits capacity rate starts log t (x + c) := by
  refine forall₂_congr fun s hmem => ?_
  rw [spentSince_concat, if_pos (hs s hmem), add_assoc, add_comm c x]

variable [IsStrictOrderedRing K]

theorem spentSince_nonneg {log : List (K × K)} (h : ∀ e ∈ log, 0 ≤ e.2) (s : K) :
    0 ≤ spentSince log s := by
  refine List.sum_nonneg fun x hx => ?_
  obtain ⟨e, he, rfl⟩ := List.mem_map.mp hx
  exact h e (List.mem_of_mem_filter he)

/-- Time passes: the budget grows by `rate` times the gap and is capped. -/
theorem fits_advance (ht : t ∈ starts) (hlog : ∀ e ∈ log, e.1 ≤ t ∧ 0 ≤ e.2) {now : K}
    (hnow : t ≤ now) (x : K) :
    Fits capacity rate (starts ++ [now]) log now x ↔
      x ≤ capacity ∧ Fits capacity rate starts log t (x - rate * (now - t)) := by
  have hshift : ∀ s, spentSince log s + x ≤ capacity + rate * (now - s) ↔
      spentSince log s + (x - rate * (now - t)) ≤ capacity + rate * (t - s) := by
    intro s
    constructor <;> intro h <;> linarith
  have hpos := spentSince_nonneg (fun e he => (hlog e he).2) now
  simp only [Fits, List.mem_append, List.mem_singleton, or_imp, forall_and, forall_eq, hshift]
  constructor
  · rintro ⟨h, hlast⟩
    have hx := (hshift now).mpr hlast
    rw [sub_self, mul_zero, add_zero] at hx
    exact ⟨by linarith, h⟩
  · rintro ⟨hx, h⟩
    refine ⟨h, (hshift now).mp ?_⟩
    rw [sub_self, mul_zero, add_zero]
    rcases hnow.eq_or_lt with rfl | hlt
    · -- the window that starts at this instant is one of the old ones
      have h0 := (hshift t).mpr (h t ht)
      rwa [sub_self, mul_zero, add_zero] at h0
    · rw [spentSince_eq_zero fun e he => (hlog e he).1.trans_lt hlt, zero_add]
      exact hx

/-- Every window keeps to the envelope if every entry fitted when it was spent. -/
theorem spentWithin_le_concat (hrate : 0 ≤ rate) (hlog : ∀ e ∈ log, e.1 ∈ starts)
    (ht : t ∈ starts) (hs : ∀ s ∈ starts, s ≤ t) {c : K} (hfit : Fits capacity rate starts log t c)
    (h : ∀ u v, u ≤ v → spentWithin log u v ≤ capacity + rate * (v - u)) {u v : K} (huv : u ≤ v) :
    spentWithin (log ++ [(t, c)]) u v ≤ capacity + rate * (v - u) := by
  rw [spentWithin_concat]
  split_ifs with hin
  · obtain ⟨hut, htv⟩ := hin
    obtain ⟨s, hmem, hus, heq⟩ := exists_start hlog ht hut
    have hb := hfit s hmem
    have hmono : rate * (t - s) ≤ rate * (v - u) := by
      apply mul_le_mul_of_nonneg_left _ hrate
      linarith
    rw [spentWithin_eq_spentSince fun e he => (hs e.1 (hlog e he)).trans htv, heq]
    linarith
  · rw [add_zero]
    exact h u v huv

end Envelope
