import InferenceCluster.Lib.Rounding
import InferenceCluster.Spec.Api

/-! Rounding to digits, as `round` does it: it keeps the order, and so bounds by whole
numbers. -/

namespace InferenceCluster

variable {K : Type} [Field K] [LinearOrder K] [FloorRing K]

theorem roundTo_eq (x : K) (ndigits : ℕ) :
    roundTo x ndigits = roundInt (x * ((10 ^ ndigits : ℕ) : K)) / ((10 ^ ndigits : ℕ) : K) := by
  simp only [roundTo, roundInt]
  split_ifs
  · rfl
  · rw [Int.cast_add, Int.cast_one]

variable [IsStrictOrderedRing K]

theorem roundTo_mono {x y : K} (h : x ≤ y) (ndigits : ℕ) : roundTo x ndigits ≤ roundTo y ndigits := by
  have hscale : (0 : K) < ((10 ^ ndigits : ℕ) : K) := by positivity
  rw [roundTo_eq, roundTo_eq]
  apply div_le_div_of_nonneg_right _ hscale.le
  exact_mod_cast roundInt_mono (mul_le_mul_of_nonneg_right h hscale.le)

theorem roundTo_natCast (n ndigits : ℕ) : roundTo (n : K) ndigits = n := by
  have hscale : ((10 ^ ndigits : ℕ) : K) ≠ 0 := by positivity
  have hint : (n : K) * ((10 ^ ndigits : ℕ) : K) = ((n * 10 ^ ndigits : ℕ) : ℤ) := by push_cast; rfl
  rw [roundTo_eq, hint, roundInt_intCast, div_eq_iff hscale]
  push_cast
  rfl

theorem le_roundTo {n : ℕ} {x : K} (h : (n : K) ≤ x) (ndigits : ℕ) : (n : K) ≤ roundTo x ndigits := by
  rw [← roundTo_natCast (K := K) n ndigits]
  exact roundTo_mono h ndigits

theorem roundTo_le {n : ℕ} {x : K} (h : x ≤ (n : K)) (ndigits : ℕ) : roundTo x ndigits ≤ (n : K) := by
  rw [← roundTo_natCast (K := K) n ndigits]
  exact roundTo_mono h ndigits

end InferenceCluster
