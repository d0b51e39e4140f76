import InferenceCluster.Lib.Ranks
import InferenceCluster.Sanity.Windows
import Mathlib.Algebra.Order.Field.Rat

/-! What `p95` and `p99` are. The index is `⌊q n⌋ - 1`, so where `q n` is not a whole number the
value below the percentile is taken, which one value too few does not exceed. -/

namespace InferenceCluster

variable {K : Type}

/-- A fresh window after some calls of `record`. -/
def recorded (maxlen : ℕ) (values : List K) : LatencyWindow K :=
  values.foldl LatencyWindow.record { maxlen }

theorem recorded_eq (maxlen : ℕ) (values : List K) :
    recorded maxlen values = { maxlen, data := values.rtake maxlen } := by
  induction values using List.reverseRecOn with
  | nil => simp [recorded]
  | append_singleton values v ih =>
    rw [recorded, List.foldl_append, List.foldl_cons, List.foldl_nil, ← recorded, ih,
      ← appendMax_rtake]
    rfl

variable [LinearOrder K]

/-- The rank `q n / 100` needs no rounding, or the values of the two ranks around it are
equal. -/
def Settled (q : ℕ) (data : List K) : Prop :=
  let s := data.insertionSort (· ≤ ·)
  100 ∣ data.length * q ∨ s[data.length * q / 100]? = s[data.length * q / 100 - 1]?

instance (q : ℕ) (data : List K) : Decidable (Settled q data) := by
  unfold Settled
  infer_instance

variable [Field K]

/-- The statistics are in order, and as many values as they say are at most `p95` and `p99`. -/
structure ArePercentiles (data : List K) (st : LatencyStats K) : Prop where
  min_median : st.min ≤ st.median
  median_p95 : st.median ≤ st.p95
  p95_p99 : st.p95 ≤ st.p99
  p99_max : st.p99 ≤ st.max
  p95 : data.length * 95 ≤ 100 * data.countP (· ≤ st.p95)
  p99 : data.length * 99 ≤ 100 * data.countP (· ≤ st.p99)

section Sorted

variable {s : List K}

omit [LinearOrder K] in
theorem getElem?_getD {i : ℕ} (hi : i < s.length) : s[i]? = some (s.getD i 0) := by
  rw [List.getD_eq_getElem?_getD, List.getElem?_eq_getElem hi, Option.getD_some]

theorem getD_mono (hs : s.Pairwise (· ≤ ·)) {i j : ℕ} (hij : i ≤ j) (hj : j < s.length) :
    s.getD i 0 ≤ s.getD j 0 :=
  Ranks.getElem?_mono hs hij (getElem?_getD (hij.trans_lt hj)) (getElem?_getD hj)

theorem min_le_getD {i : ℕ} (hi : i < s.length) : s.min?.getD 0 ≤ s.getD i 0 := by
  have hmem := List.mem_of_getElem? (getElem?_getD hi)
  cases h : s.min? with
  | none => rw [List.min?_eq_none_iff.mp h] at hi; cases hi
  | some a => exact (List.min?_eq_some_iff.mp h).2 _ hmem

theorem getD_le_max {i : ℕ} (hi : i < s.length) : s.getD i 0 ≤ s.max?.getD 0 := by
  have hmem := List.mem_of_getElem? (getElem?_getD hi)
  cases h : s.max? with
  | none => rw [List.max?_eq_none_iff.mp h] at hi; cases hi
  | some a => exact (List.max?_eq_some_iff.mp h).2 _ hmem

variable [IsStrictOrderedRing K]

theorem getD_le_median (hs : s.Pairwise (· ≤ ·)) (hne : 0 < s.length) : s.getD 0 0 ≤ median s := by
  simp only [median]
  split_ifs with hodd
  · exact getD_mono hs (Nat.zero_le _) (by omega)
  · have hlow : s.getD 0 0 ≤ s.getD (s.length / 2 - 1) 0 := getD_mono hs (Nat.zero_le _) (by omega)
    have hhigh : s.getD 0 0 ≤ s.getD (s.length / 2) 0 := getD_mono hs (Nat.zero_le _) (by omega)
    push_cast
    linarith

theorem median_le_getD (hs : s.Pairwise (· ≤ ·)) (hne : 0 < s.length) :
    median s ≤ s.getD (s.length / 2) 0 := by
  simp only [median]
  split_ifs with hodd
  · exact le_rfl
  · have hle : s.getD (s.length / 2 - 1) 0 ≤ s.getD (s.length / 2) 0 :=
      getD_mono hs (Nat.sub_le _ 1) (by omega)
    push_cast
    linarith

/-- Of two values the lower is taken for the `p95`; of any other number, one that is not below
the middle. -/
theorem median_le_percentile (hs : s.Pairwise (· ≤ ·)) (hne : 0 < s.length)
    (hsettled : 100 ∣ s.length * 95 ∨
      s[s.length * 95 / 100]? = s[s.length * 95 / 100 - 1]?) : median s ≤ percentile 95 s := by
  refine (median_le_getD hs hne).trans ?_
  by_cases htwo : s.length = 2
  · have htie : s[1]? = s[0]? := by
      rw [htwo] at hsettled
      exact hsettled.resolve_left (by decide)
    rw [percentile, htwo, List.getD_eq_getElem?_getD, List.getD_eq_getElem?_getD]
    exact (congrArg (fun v => Option.getD v 0) htie).le
  · exact getD_mono hs (by omega) (by omega)

omit [IsStrictOrderedRing K] in
theorem percentile_mono (hs : s.Pairwise (· ≤ ·)) (hne : 0 < s.length) {p q : ℕ} (hpq : p ≤ q)
    (hq : q < 100) : percentile p s ≤ percentile q s := by
  have hindex : s.length * p / 100 ≤ s.length * q / 100 :=
    Nat.div_le_div_right (Nat.mul_le_mul_left _ hpq)
  have hlt : s.length * q < s.length * 100 := Nat.mul_lt_mul_of_pos_left hq hne
  exact getD_mono hs (by omega) (by omega)

omit [IsStrictOrderedRing K] in
theorem percentile_le_max (hne : 0 < s.length) {q : ℕ} (hq : q < 100) :
    percentile q s ≤ s.max?.getD 0 := by
  have hlt : s.length * q < s.length * 100 := Nat.mul_lt_mul_of_pos_left hq hne
  exact getD_le_max (by omega)

end Sorted

/-- The count behind one percentile. -/
theorem count_iff {data : List K} (hne : 0 < data.length) {q : ℕ} (hq : q < 100) :
    data.length * q ≤ 100 * data.countP (· ≤ percentile q (data.insertionSort (· ≤ ·))) ↔
      Settled q data := by
  have hperm := List.perm_insertionSort (· ≤ ·) data
  have hlt : data.length * q < data.length * 100 := Nat.mul_lt_mul_of_pos_left hq hne
  have hindex : data.length * q / 100 - 1 < (data.insertionSort (· ≤ ·)).length := by
    rw [hperm.length_eq]
    omega
  have hget := getElem?_getD hindex
  have hiff := Ranks.percentile_iff (x := percentile q (data.insertionSort (· ≤ ·)))
    (List.pairwise_insertionSort (· ≤ ·) data) hq (by rw [percentile, hperm.length_eq]; exact hget)
  rw [hperm.length_eq, hperm.countP_eq] at hiff
  rw [hiff, Settled, percentile, hperm.length_eq, hget]

variable [IsStrictOrderedRing K]

/-- The statistics are those of the last values recorded, and percentiles exactly where the
ranks of the two are settled. -/
theorem percentiles_iff {maxlen : ℕ} (hmax : 1 ≤ maxlen) {values : List K} (hne : values ≠ [])
    (sqrt : K → K) :
    (recorded maxlen values).data = values.rtake maxlen ∧
    ∃ st, (recorded maxlen values).stats sqrt (fun x _ => x) = some st ∧
      st.n = min maxlen values.length ∧
      (ArePercentiles (values.rtake maxlen) st ↔
        Settled 95 (values.rtake maxlen) ∧ Settled 99 (values.rtake maxlen)) := by
  rw [recorded_eq]
  have hlen := length_rtake maxlen values
  have hpos : 0 < (values.rtake maxlen).length := by
    have := List.length_pos_iff.mpr hne
    omega
  generalize values.rtake maxlen = data at hlen hpos ⊢
  have hperm := List.perm_insertionSort (· ≤ ·) data
  have hs := List.pairwise_insertionSort (· ≤ ·) data
  have hspos : 0 < (data.insertionSort (· ≤ ·)).length := by rwa [hperm.length_eq]
  refine ⟨rfl, _, if_neg (List.ne_nil_of_length_pos hpos), ?_, ?_⟩
  · exact hperm.length_eq.trans hlen
  · constructor
    · intro h
      exact ⟨(count_iff hpos (by decide)).mp h.p95, (count_iff hpos (by decide)).mp h.p99⟩
    · rintro ⟨h95, h99⟩
      refine ⟨?_, ?_, ?_, ?_, (count_iff hpos (by decide)).mpr h95,
        (count_iff hpos (by decide)).mpr h99⟩
      · exact (min_le_getD hspos).trans (getD_le_median hs hspos)
      · apply median_le_percentile hs hspos
        simpa only [Settled, hperm.length_eq] using h95
      · exact percentile_mono hs hspos (by decide) (by decide)
      · exact percentile_le_max hspos (by decide)

/-- A hundred and one values, the last hundred of them in the window. -/
theorem percentiles_iff_hundred :
    let values : List ℚ := (List.range 101).map fun n : ℕ => (n : ℚ)
    ∃ st, (recorded 100 values).stats id (fun x _ => x) = some st ∧ st.n = 100 ∧
      ArePercentiles (values.rtake 100) st := by
  intro values
  obtain ⟨-, st, hst, hn, hiff⟩ := percentiles_iff (show 1 ≤ 100 by decide)
    (show values ≠ [] by decide) id
  have hlen : (values.rtake 100).length = 100 := by
    rw [length_rtake, List.length_map, List.length_range]
    rfl
  refine ⟨st, hst, ?_, hiff.mpr ⟨.inl ?_, .inl ?_⟩⟩
  · rw [hn, List.length_map, List.length_range]
    rfl
  · rw [hlen]
    decide
  · rw [hlen]
    decide

/-- Of the values 1 and 2 half are at most the `p95`, and it is below the median. -/
theorem p95_below_median :
    (recorded 200 [(1 : ℚ), 2]).stats id (fun x _ => x) =
      some ⟨2, 3 / 2, 3 / 2, 1, 1, 1, 2, 1 / 2⟩ ∧
    ¬ArePercentiles [(1 : ℚ), 2] ⟨2, 3 / 2, 3 / 2, 1, 1, 1, 2, 1 / 2⟩ := by
  refine ⟨by decide +kernel, fun h => ?_⟩
  have hle : (3 / 2 : ℚ) ≤ 1 := h.median_p95
  norm_num at hle

end InferenceCluster
