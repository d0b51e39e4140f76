import InferenceCluster.Lib.Softmax
import InferenceCluster.Spec.Attention
import Mathlib.Analysis.Real.Sqrt
import Mathlib.Order.Interval.Finset.Fin

/-! The mask is added to the scores and finite, so a row does look at later positions: this
much. -/

namespace InferenceCluster
namespace Attention

open Finset (Ioi)

variable {nHeads seqLen dHead : ℕ} {Q K : Heads ℝ nHeads seqLen dHead} {B : ℝ}

/-- The subtraction of the maximum does not show. -/
theorem softmax_eq {n : ℕ} (x : Fin n → ℝ) : softmax Real.exp x = Softmax.weight x := by
  funext j
  exact congrFun (Softmax.weight_shift x (Finset.univ.sup' ⟨j, Finset.mem_univ j⟩ x)) j

theorem weights_eq (h : Fin nHeads) (i : Fin seqLen) : weights Real.exp Real.sqrt Q K h i =
    Softmax.weight fun j => scores Real.sqrt Q K h i j + causalMask seqLen i j :=
  softmax_eq _

theorem card_future (i : Fin seqLen) : ((Ioi i).card : ℝ) = seqLen - 1 - i := by
  have hi : (i : ℕ) + 1 ≤ seqLen := i.isLt
  rw [Fin.card_Ioi, Nat.sub_sub, Nat.add_comm, Nat.cast_sub hi]
  push_cast
  ring

theorem sum_future_le (hB : ∀ h i j, scores Real.sqrt Q K h i j ∈ Set.Icc (-B) B)
    (h : Fin nHeads) (i : Fin seqLen) :
    ∑ j ∈ Ioi i, weights Real.exp Real.sqrt Q K h i j ≤
      (seqLen - 1 - i) * Real.exp (2 * B - 10 ^ 9) := by
  rw [weights_eq, ← card_future]
  have hself : -B ≤ scores Real.sqrt Q K h i i + causalMask seqLen i i := by
    simpa [causalMask] using (hB h i i).1
  have hfuture : ∀ j ∈ Ioi i,
      scores Real.sqrt Q K h i j + causalMask seqLen i j ≤ B - 10 ^ 9 := by
    intro j hj
    have hmask : causalMask seqLen i j = (-(10 ^ 9) : ℝ) := by
      norm_num [causalMask, Finset.mem_Ioi.mp hj]
    rw [hmask]
    linarith [(hB h i j).2]
  have hexponent : B - 10 ^ 9 - -B = 2 * B - 10 ^ 9 := by ring
  rw [← hexponent]
  exact Softmax.sum_weight_le hself hfuture

/-- The weights of a row are a distribution that gives next to nothing to later positions, so
next to nothing of their values shows in its output. -/
theorem causal_leak (hB : ∀ h i j, scores Real.sqrt Q K h i j ∈ Set.Icc (-B) B)
    (h : Fin nHeads) (i : Fin seqLen) :
    (∀ j, 0 < weights Real.exp Real.sqrt Q K h i j) ∧
    ∑ j, weights Real.exp Real.sqrt Q K h i j = 1 ∧
    ∑ j ∈ Ioi i, weights Real.exp Real.sqrt Q K h i j ≤
      (seqLen - 1 - i) * Real.exp (2 * B - 10 ^ 9) ∧
    ∀ (V V' : Heads ℝ nHeads seqLen dHead) (D : ℝ),
      (∀ j ≤ i, V' h j = V h j) → (∀ j > i, ∀ d, |V' h j d - V h j d| ≤ D) →
      ∀ d, |attention Real.exp Real.sqrt Q K V' h i d - attention Real.exp Real.sqrt Q K V h i d| ≤
        (seqLen - 1 - i) * Real.exp (2 * B - 10 ^ 9) * D := by
  have hpos : ∀ j, 0 < weights Real.exp Real.sqrt Q K h i j := by
    rw [weights_eq]
    exact Softmax.weight_pos _
  refine ⟨hpos, ?_, sum_future_le hB h i, fun V V' D hpast hfuture d => ?_⟩
  · have : Nonempty (Fin seqLen) := ⟨i⟩
    rw [weights_eq]
    exact Softmax.sum_weight _
  · have hmean := Softmax.abs_mean_sub_le (S := Ioi i) (fun j _ => (hpos j).le)
      (fun j hj => congrFun (hpast j (not_lt.mp fun hlt => hj (Finset.mem_Ioi.mpr hlt))) d)
      (fun j hj => hfuture j (Finset.mem_Ioi.mp hj) d)
    refine hmean.trans ?_
    rcases (Ioi i).eq_empty_or_nonempty with hnone | ⟨j, hj⟩
    · -- the last row: no later position, and nothing is known of `D`
      have hzero : (seqLen : ℝ) - 1 - i = 0 := by rw [← card_future, hnone]; simp
      rw [hnone, hzero]
      simp
    · have hD : 0 ≤ D := (abs_nonneg _).trans (hfuture j (Finset.mem_Ioi.mp hj) d)
      exact mul_le_mul_of_nonneg_right (sum_future_le hB h i) hD

/-- Two tokens, queries and keys all ones: the first hardly sees the 99 of the second. -/
theorem causal_leak_twoTokens :
    let ones : Heads ℝ 1 2 4 := fun _ _ _ => 1
    let V : Heads ℝ 1 2 4 := fun _ j d => if d = 0 then if j = 0 then 1 else 99 else 0
    let V' : Heads ℝ 1 2 4 := fun _ j d => if d = 0 ∧ j = 0 then 1 else 0
    |attention Real.exp Real.sqrt ones ones V' 0 0 0 -
      attention Real.exp Real.sqrt ones ones V 0 0 0| ≤ Real.exp (4 - 10 ^ 9) * 99 := by
  intro ones V V'
  have hroot : Real.sqrt 4 = 2 := by
    rw [show (4 : ℝ) = 2 ^ 2 by norm_num]
    exact Real.sqrt_sq (by norm_num)
  have hB : ∀ h i j, scores Real.sqrt ones ones h i j ∈ Set.Icc (-2) 2 := by
    intro h i j
    norm_num [scores, ones, hroot]
  have hpast : ∀ j ≤ (0 : Fin 2), V' 0 j = V 0 j := by
    intro j hj
    obtain rfl : j = 0 := Fin.le_zero_iff.mp hj
    funext d
    by_cases hd : d = 0 <;> simp [V, V', hd]
  have hfuture : ∀ j > (0 : Fin 2), ∀ d, |V' 0 j d - V 0 j d| ≤ 99 := by
    intro j hj d
    have hj : j ≠ 0 := hj.ne'
    by_cases hd : d = 0 <;> simp [V, V', hd, hj]
  have hleak := (causal_leak hB 0 0).2.2.2 V V' 99 hpast hfuture 0
  norm_num at hleak ⊢
  exact hleak

end Attention
end InferenceCluster
