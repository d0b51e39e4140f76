import InferenceCluster.Spec.Windows
import Mathlib.Algebra.Order.BigOperators.Group.List
import Mathlib.Analysis.Real.Sqrt
import Mathlib.Data.List.DropRight
import Mathlib.Tactic

/-! What a `deque` with a `maxlen` holds, and when a sample has no spread. -/

namespace InferenceCluster

variable {K : Type}

theorem appendMax_rtake (maxlen : ℕ) (l : List K) (x : K) :
    appendMax maxlen (l.rtake maxlen) x = (l ++ [x]).rtake maxlen := by
  simp only [appendMax, List.rtake, List.length_drop, List.length_append, List.length_singleton]
  rcases Nat.lt_or_ge l.length maxlen with hlt | hge
  · have hnone : l.length - maxlen = 0 := by omega
    rw [hnone, Nat.sub_zero, List.drop_zero]
  · have hone : l.length - (l.length - maxlen) + 1 - maxlen = 1 := by omega
    have hsucc : l.length + 1 - maxlen = l.length - maxlen + 1 := by omega
    rw [hone, hsucc, ← List.drop_append_of_le_length (Nat.sub_le _ _), List.drop_drop]

theorem map_appendMax {L : Type} (f : K → L) (maxlen : ℕ) (l : List K) (x : K) :
    (appendMax maxlen l x).map f = appendMax maxlen (l.map f) (f x) := by
  simp only [appendMax, List.map_drop, List.map_append, List.map_cons, List.map_nil,
    List.length_map]

theorem map_rtake {L : Type} (f : K → L) (maxlen : ℕ) (l : List K) :
    (l.rtake maxlen).map f = (l.map f).rtake maxlen := by
  rw [List.rtake, List.rtake, List.map_drop, List.length_map]

theorem length_rtake (maxlen : ℕ) (l : List K) : (l.rtake maxlen).length = min maxlen l.length := by
  rw [List.rtake, List.length_drop]
  omega

theorem getLast?_rtake {maxlen : ℕ} (h : 0 < maxlen) (l : List K) :
    (l.rtake maxlen).getLast? = l.getLast? := by
  rw [List.rtake, List.getLast?_drop]
  split_ifs with hle
  · rw [List.length_eq_zero_iff.mp (by omega : l.length = 0), List.getLast?_nil]
  · rfl

/-! ### Spread -/

theorem mean_const {data : List ℝ} {c : ℝ} (hne : data ≠ []) (h : ∀ x ∈ data, x = c) :
    mean data = c := by
  have hlen : (data.length : ℝ) ≠ 0 := Nat.cast_ne_zero.mpr (List.length_pos_iff.mpr hne).ne'
  rw [mean, List.sum_eq_card_nsmul data c h, nsmul_eq_mul, mul_div_cancel_left₀ _ hlen]

theorem sum_sq_nonneg (data : List ℝ) (m : ℝ) : 0 ≤ (data.map fun x => (x - m) ^ 2).sum := by
  apply List.sum_nonneg
  intro y hy
  obtain ⟨x, -, rfl⟩ := List.mem_map.mp hy
  exact sq_nonneg _

theorem sum_sq_eq_zero_iff (data : List ℝ) (m : ℝ) :
    (data.map fun x => (x - m) ^ 2).sum = 0 ↔ ∀ x ∈ data, x = m := by
  induction data with
  | nil => simp
  | cons x data ih =>
    rw [List.map_cons, List.sum_cons, add_eq_zero_iff_of_nonneg (sq_nonneg _) (sum_sq_nonneg _ _),
      ih, pow_eq_zero_iff two_ne_zero, sub_eq_zero, List.forall_mem_cons]

/-- A sample has no spread exactly when its values are all the same. -/
theorem stdev_eq_zero_iff {data : List ℝ} (hlen : 2 ≤ data.length) :
    stdev Real.sqrt data = 0 ↔ ∀ x ∈ data, ∀ y ∈ data, x = y := by
  have hpos : (0 : ℝ) < (data.length - 1 : ℕ) := Nat.cast_pos.mpr (by omega)
  have hsum := sum_sq_nonneg data (mean data)
  have hmean : stdev Real.sqrt data = 0 ↔ ∀ x ∈ data, x = mean data := by
    rw [stdev, Real.sqrt_eq_zero (div_nonneg hsum hpos.le), div_eq_zero_iff,
      or_iff_left hpos.ne', sum_sq_eq_zero_iff]
  rw [hmean]
  constructor
  · exact fun h x hx y hy => (h x hx).trans (h y hy).symm
  · intro h x hx
    exact (mean_const (List.ne_nil_of_mem hx) fun y hy => h y hy x hx).symm

theorem stdev_nonneg (data : List ℝ) : 0 ≤ stdev Real.sqrt data := Real.sqrt_nonneg _

end InferenceCluster
