import Mathlib.Algebra.BigOperators.Field
import Mathlib.Algebra.Order.BigOperators.Group.Finset
import Mathlib.Analysis.SpecialFunctions.Exp

/-! Softmax weights of finitely many real scores: a distribution that shifts of all scores
leave alone, what it can give to low scores, and what a weighted mean owes to them. -/

namespace Softmax

variable {ι : Type} [Fintype ι]

noncomputable def weight (x : ι → ℝ) (i : ι) : ℝ := Real.exp (x i) / ∑ k, Real.exp (x k)

variable {x : ι → ℝ}

theorem sum_exp_pos (x : ι → ℝ) (i : ι) : 0 < ∑ k, Real.exp (x k) :=
  Finset.sum_pos (fun k _ => Real.exp_pos (x k)) ⟨i, Finset.mem_univ i⟩

theorem weight_pos (x : ι → ℝ) (i : ι) : 0 < weight x i :=
  div_pos (Real.exp_pos _) (sum_exp_pos x i)

theorem sum_weight [Nonempty ι] (x : ι → ℝ) : ∑ i, weight x i = 1 := by
  have hpos := sum_exp_pos x (Classical.arbitrary ι)
  simp only [weight]
  rw [← Finset.sum_div, div_self hpos.ne']

/-- The trick of the implementations: any shift, so that of the maximum. -/
theorem weight_shift (x : ι → ℝ) (c : ℝ) : weight (fun k => x k - c) = weight x := by
  funext i
  simp only [weight, Real.exp_sub]
  rw [← Finset.sum_div]
  exact div_div_div_cancel_right₀ (Real.exp_ne_zero c) _ _

theorem weight_le {i j : ι} {a b : ℝ} (hi : a ≤ x i) (hj : x j ≤ b) :
    weight x j ≤ Real.exp (b - a) := by
  have hsum : Real.exp a ≤ ∑ k, Real.exp (x k) :=
    calc Real.exp a ≤ Real.exp (x i) := Real.exp_le_exp.mpr hi
      _ ≤ ∑ k, Real.exp (x k) :=
        Finset.single_le_sum (f := fun k => Real.exp (x k)) (fun k _ => (Real.exp_pos _).le)
          (Finset.mem_univ i)
  rw [Real.exp_sub]
  exact div_le_div₀ (Real.exp_pos b).le (Real.exp_le_exp.mpr hj) (Real.exp_pos a) hsum

/-- What the low scores get in all. -/
theorem sum_weight_le {S : Finset ι} {i : ι} {a b : ℝ} (hi : a ≤ x i) (hS : ∀ j ∈ S, x j ≤ b) :
    ∑ j ∈ S, weight x j ≤ S.card * Real.exp (b - a) := by
  rw [← nsmul_eq_mul]
  exact Finset.sum_le_card_nsmul S _ _ fun j hj => weight_le hi (hS j hj)

theorem abs_sum_weight_mul_le (S : Finset ι) {v : ι → ℝ} {W : ℝ} (hv : ∀ j, |v j| ≤ W) :
    |∑ j ∈ S, weight x j * v j| ≤ (∑ j ∈ S, weight x j) * W := by
  rw [Finset.sum_mul]
  refine (Finset.abs_sum_le_sum_abs _ _).trans (Finset.sum_le_sum fun j _ => ?_)
  rw [abs_mul, abs_of_pos (weight_pos x j)]
  exact mul_le_mul_of_nonneg_left (hv j) (weight_pos x j).le

section Restrict

variable {κ : Type} [Fintype κ] [DecidableEq ι] (f : κ ↪ ι) (x : ι → ℝ)

/-- What the indices outside the range of `f` get. -/
noncomputable def lost : ℝ := ∑ j ∈ (Finset.univ.map f)ᶜ, weight x j

theorem lost_nonneg : 0 ≤ lost f x := Finset.sum_nonneg fun j _ => (weight_pos x j).le

theorem sum_range_add_lost [Nonempty ι] : ∑ k, weight x (f k) + lost f x = 1 := by
  rw [lost, ← Finset.sum_map Finset.univ f (weight x), Finset.sum_add_sum_compl, sum_weight]

/-- The scores that are kept share what the others leave. -/
theorem weight_restrict (k : κ) :
    weight x (f k) = (1 - lost f x) * weight (fun k => x (f k)) k := by
  have : Nonempty ι := ⟨f k⟩
  have hall := (sum_exp_pos x (f k)).ne'
  have hkept := (sum_exp_pos (fun k => x (f k)) k).ne'
  have hshare : 1 - lost f x = (∑ k, Real.exp (x (f k))) / ∑ j, Real.exp (x j) := by
    rw [← sum_range_add_lost f x, add_sub_cancel_right, Finset.sum_div]
    rfl
  rw [hshare, weight, weight]
  field_simp

/-- The mean over the kept scores is the mean over all, up to twice what is lost. -/
theorem abs_mean_restrict_le {v : ι → ℝ} {W : ℝ} (hv : ∀ j, |v j| ≤ W) (k : κ) :
    |∑ j, weight x j * v j - ∑ k, weight (fun k => x (f k)) k * v (f k)| ≤ 2 * W * lost f x := by
  have : Nonempty κ := ⟨k⟩
  have hall : ∑ j, weight x j * v j =
      (1 - lost f x) * ∑ k, weight (fun k => x (f k)) k * v (f k) +
        ∑ j ∈ (Finset.univ.map f)ᶜ, weight x j * v j := by
    rw [← Finset.sum_add_sum_compl (Finset.univ.map f), Finset.sum_map, Finset.mul_sum]
    congr 1
    refine Finset.sum_congr rfl fun k _ => ?_
    rw [weight_restrict, mul_assoc]
  have hfar : |∑ j ∈ (Finset.univ.map f)ᶜ, weight x j * v j| ≤ lost f x * W :=
    abs_sum_weight_mul_le _ hv
  have hkept := abs_sum_weight_mul_le (x := fun k => x (f k)) Finset.univ fun k => hv (f k)
  rw [sum_weight, one_mul] at hkept
  have hlost := mul_le_mul_of_nonneg_left hkept (lost_nonneg f x)
  rw [← abs_of_nonneg (lost_nonneg f x), ← abs_mul, abs_of_nonneg (lost_nonneg f x)] at hlost
  calc |∑ j, weight x j * v j - ∑ k, weight (fun k => x (f k)) k * v (f k)|
      = |∑ j ∈ (Finset.univ.map f)ᶜ, weight x j * v j -
          lost f x * ∑ k, weight (fun k => x (f k)) k * v (f k)| := by rw [hall]; ring_nf
    _ ≤ lost f x * W + lost f x * W := (abs_sub _ _).trans (add_le_add hfar hlost)
    _ = 2 * W * lost f x := by ring

end Restrict

/-- A change of the values on `S` shows in the mean with the weight of `S`. -/
theorem abs_mean_sub_le {w v v' : ι → ℝ} {S : Finset ι} {D : ℝ} (hw : ∀ j ∈ S, 0 ≤ w j)
    (hsame : ∀ j ∉ S, v' j = v j) (hnear : ∀ j ∈ S, |v' j - v j| ≤ D) :
    |∑ j, w j * v' j - ∑ j, w j * v j| ≤ (∑ j ∈ S, w j) * D := by
  have hS : ∑ j, w j * v' j - ∑ j, w j * v j = ∑ j ∈ S, w j * (v' j - v j) :=
    calc ∑ j, w j * v' j - ∑ j, w j * v j = ∑ j, w j * (v' j - v j) := by
          simp only [mul_sub, Finset.sum_sub_distrib]
      _ = ∑ j ∈ S, w j * (v' j - v j) := by
          symm
          apply Finset.sum_subset (Finset.subset_univ S)
          intro j _ hj
          rw [hsame j hj, sub_self, mul_zero]
  rw [hS, Finset.sum_mul]
  refine (Finset.abs_sum_le_sum_abs _ _).trans (Finset.sum_le_sum fun j hj => ?_)
  rw [abs_mul, abs_of_nonneg (hw j hj)]
  exact mul_le_mul_of_nonneg_left (hnear j hj) (hw j hj)

end Softmax
