import InferenceCluster.Sanity.Windows

/-! When the anomaly detector raises its flag. A window without spread is an exit of its own,
so a value that leaves a constant baseline is never flagged. -/

namespace InferenceCluster
namespace AnomalyDetector

section Calls

variable {K : Type} [Field K] [LinearOrder K] (sqrt : K → K) (round : K → ℕ → K)

/-- A call records the value, and counts it where it is flagged. -/
theorem check_snd (det : AnomalyDetector K) (value : K) :
    (det.check sqrt round value).2 = { det with
      window := appendMax det.maxlen det.window value
      anomalyCount := det.anomalyCount +
        if (det.check sqrt round value).1.1 then 1 else 0 } := by
  simp only [check]
  split_ifs <;> simp_all [append]

theorem flagged_iff {det : AnomalyDetector K} (hlen : 10 ≤ det.window.length) (value : K) :
    (det.check sqrt round value).1.1 = true ↔ stdev sqrt det.window ≠ 0 ∧
      det.threshold < |(value - mean det.window) / stdev sqrt det.window| := by
  simp only [check, if_neg (not_lt.mpr hlen)]
  split_ifs with hzero hz <;> simp_all

theorem checks_concat (det : AnomalyDetector K) (values : List K) (value : K) :
    det.checks sqrt round (values ++ [value]) =
      ((det.checks sqrt round values).1 ++
          [((det.checks sqrt round values).2.check sqrt round value).1],
        ((det.checks sqrt round values).2.check sqrt round value).2) := by
  induction values generalizing det with
  | nil => rfl
  | cons v values ih => simp only [List.cons_append, checks, ih]

/-- A fresh detector after some calls. -/
def after (window : ℕ) (threshold : K) (values : List K) : List (Bool × K) × AnomalyDetector K :=
  checks sqrt round { maxlen := window, threshold } values

theorem after_snd (window : ℕ) (threshold : K) (values : List K) :
    (after sqrt round window threshold values).2 =
      { maxlen := window
        threshold
        window := values.rtake window
        anomalyCount := (after sqrt round window threshold values).1.countP Prod.fst } := by
  induction values using List.reverseRecOn with
  | nil => simp [after, checks]
  | append_singleton values v ih =>
    simp only [after, checks_concat] at ih ⊢
    rw [check_snd, List.countP_append]
    generalize hr : ((checks sqrt round _ values).2.check sqrt round v).1 = r
    rw [ih, appendMax_rtake]
    cases hflag : r.1 <;> simp [hflag]

end Calls

/-- After the calls on `values`: the window holds the last of them and the counter their
flags, and a check on `value` records it and flags it exactly outside the control limits. -/
def Documented (round : ℝ → ℕ → ℝ) (window : ℕ) (threshold : ℝ) (values : List ℝ)
    (value : ℝ) : Prop :=
  let r := after Real.sqrt round window threshold values
  let checked := r.2.check Real.sqrt round value
  let last := values.rtake window
  r.2.window = last ∧ r.2.anomalyCount = r.1.countP Prod.fst ∧
    checked.2.window = (values ++ [value]).rtake window ∧
    (10 ≤ last.length →
      (checked.1.1 = true ↔ threshold * stdev Real.sqrt last < |value - mean last|))

/-- The z-score is past the threshold outside the control limits, but where the sample has no
spread. -/
theorem limits_iff {last : List ℝ} (hlen : 2 ≤ last.length) (threshold value : ℝ) :
    ((stdev Real.sqrt last ≠ 0 ∧ threshold < |(value - mean last) / stdev Real.sqrt last|) ↔
        threshold * stdev Real.sqrt last < |value - mean last|) ↔
      ((∀ x ∈ last, ∀ y ∈ last, x = y) → value ∈ last) := by
  by_cases hzero : stdev Real.sqrt last = 0
  · have hconst := (stdev_eq_zero_iff hlen).mp hzero
    obtain ⟨c, hc⟩ := List.exists_mem_of_length_pos (by omega : 0 < last.length)
    have hmean : mean last = c :=
      mean_const (List.ne_nil_of_mem hc) fun x hx => hconst x hx c hc
    have hmem : value ∈ last ↔ value = c :=
      ⟨fun hv => hconst value hv c hc, fun hv => hv ▸ hc⟩
    rw [hzero, hmean, hmem, mul_zero, abs_pos, sub_ne_zero]
    constructor
    · exact fun h _ => by_contra fun hne => (h.mpr hne).1 rfl
    · exact fun h => ⟨fun hflag => absurd rfl hflag.1, fun hne => absurd (h hconst) hne⟩
  · have hpos : 0 < stdev Real.sqrt last := (stdev_nonneg last).lt_of_ne' hzero
    refine iff_of_true ?_ fun hconst => absurd ((stdev_eq_zero_iff hlen).mpr hconst) hzero
    rw [abs_div, abs_of_pos hpos, lt_div_iff₀ hpos, and_iff_right hzero]

/-- The detector does as documented on all but a constant window of another value. -/
theorem control_limits_iff (round : ℝ → ℕ → ℝ) (window : ℕ) (threshold : ℝ) (values : List ℝ)
    (value : ℝ) : Documented round window threshold values value ↔
      (10 ≤ (values.rtake window).length →
        (∀ x ∈ values.rtake window, ∀ y ∈ values.rtake window, x = y) →
          value ∈ values.rtake window) := by
  have hafter := after_snd Real.sqrt round window threshold values
  have hrecorded : ((after Real.sqrt round window threshold values).2.check Real.sqrt round
      value).2.window = (values ++ [value]).rtake window := by
    rw [check_snd, hafter, appendMax_rtake]
  have hflag : 10 ≤ (values.rtake window).length →
      (((after Real.sqrt round window threshold values).2.check Real.sqrt round value).1.1 = true ↔
        stdev Real.sqrt (values.rtake window) ≠ 0 ∧ threshold <
          |(value - mean (values.rtake window)) / stdev Real.sqrt (values.rtake window)|) := by
    intro hlen
    rw [hafter]
    exact flagged_iff Real.sqrt round hlen value
  have hwindow := congrArg AnomalyDetector.window hafter
  have hcount := congrArg AnomalyDetector.anomalyCount hafter
  constructor
  · rintro ⟨-, -, -, hlimits⟩ hlen
    apply (limits_iff (by omega) threshold value).mp
    exact (hflag hlen).symm.trans (hlimits hlen)
  · intro h
    refine ⟨hwindow, hcount, hrecorded, fun hlen => ?_⟩
    exact (hflag hlen).trans ((limits_iff (by omega) threshold value).mpr (h hlen))

/-- Fifty times 100, then 500. -/
theorem spike_not_flagged :
    let round : ℝ → ℕ → ℝ := fun x _ => x
    let last := List.replicate 50 (100 : ℝ)
    ((after Real.sqrt round 50 3 last).2.check Real.sqrt round 500).1.1 = false ∧
      3 * stdev Real.sqrt last < |500 - mean last| ∧ ¬Documented round 50 3 last 500 := by
  intro round last
  have hlast : last.rtake 50 = last := by simp [last, List.rtake]
  have hzero : stdev Real.sqrt last = 0 := by
    rw [stdev_eq_zero_iff (by simp [last])]
    intro x hx y hy
    rw [List.eq_of_mem_replicate hx, List.eq_of_mem_replicate hy]
  have hmean : mean last = 100 :=
    mean_const (by simp [last]) fun x hx => List.eq_of_mem_replicate hx
  have hflag : ((after Real.sqrt round 50 3 last).2.check Real.sqrt round 500).1.1 = false := by
    rw [after_snd, Bool.eq_false_iff, ne_eq, flagged_iff]
    · rw [hlast]
      exact fun h => h.1 hzero
    · simp [last, List.rtake]
  have houtside : 3 * stdev Real.sqrt last < |500 - mean last| := by
    rw [hzero, hmean]
    norm_num
  refine ⟨hflag, houtside, fun ⟨_, _, _, hlimits⟩ => ?_⟩
  rw [hlast] at hlimits
  rw [(hlimits (by simp [last])).mpr houtside] at hflag
  cases hflag

end AnomalyDetector
end InferenceCluster
