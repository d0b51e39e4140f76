import InferenceCluster.Proofs.CausalLeak

/-! A sequence that grows: the rows of its first tokens, computed when there were no others, stay
the rows of the longer sequence, up to what the finite mask lets through. So a row is computed
once, from the keys and values of the tokens before it. -/

namespace InferenceCluster
namespace Attention

variable {nHeads m n dHead : ℕ}

/-- The first `m` tokens. -/
def firstTokens {R : Type} (hmn : m ≤ n) (X : Heads R nHeads n dHead) : Heads R nHeads m dHead :=
  fun h i => X h (Fin.castLE hmn i)

variable {Q K : Heads ℝ nHeads n dHead} {B : ℝ}

theorem weights_firstTokens (hmn : m ≤ n) (h : Fin nHeads) (i : Fin m) :
    weights Real.exp Real.sqrt (firstTokens hmn Q) (firstTokens hmn K) h i =
      Softmax.weight fun j => scores Real.sqrt Q K h (Fin.castLE hmn i) (Fin.castLE hmn j) +
        causalMask n (Fin.castLE hmn i) (Fin.castLE hmn j) := by
  rw [weights_eq]
  rfl

theorem causalMask_later {i j : Fin n} (h : i < j) : causalMask n i j = (-(10 ^ 9) : ℝ) := by
  norm_num [causalMask, h]

theorem later_iff (hmn : m ≤ n) (j : Fin n) :
    j ∈ (Finset.univ.map (Fin.castLEEmb hmn))ᶜ ↔ m ≤ (j : ℕ) := by
  simp only [Finset.mem_compl, Finset.mem_map, Finset.mem_univ, true_and, not_exists]
  constructor
  · intro hj
    by_contra hlt
    exact hj ⟨j, not_le.mp hlt⟩ rfl
  · rintro hj k rfl
    exact absurd k.isLt (not_lt.mpr hj)

/-- The weight that a row gives to the tokens that were not there. -/
theorem lost_le (hmn : m ≤ n) (hB : ∀ h i j, scores Real.sqrt Q K h i j ∈ Set.Icc (-B) B)
    (h : Fin nHeads) (i : Fin m) :
    Softmax.lost (Fin.castLEEmb hmn) (fun j =>
      scores Real.sqrt Q K h (Fin.castLE hmn i) j + causalMask n (Fin.castLE hmn i) j) ≤
      (n - m) * Real.exp (2 * B - 10 ^ 9) := by
  have hcard : (((Finset.univ.map (Fin.castLEEmb hmn))ᶜ.card : ℕ) : ℝ) = n - m := by
    rw [Finset.card_compl, Finset.card_map, Finset.card_univ, Fintype.card_fin, Fintype.card_fin,
      Nat.cast_sub hmn]
  have hself : -B ≤ scores Real.sqrt Q K h (Fin.castLE hmn i) (Fin.castLE hmn i) +
      causalMask n (Fin.castLE hmn i) (Fin.castLE hmn i) := by
    simpa [causalMask] using (hB h (Fin.castLE hmn i) (Fin.castLE hmn i)).1
  rw [Softmax.lost, ← hcard, show 2 * B - 10 ^ 9 = B - 10 ^ 9 - -B by ring]
  refine Softmax.sum_weight_le hself fun j hj => ?_
  have hlater : Fin.castLE hmn i < j := i.isLt.trans_le ((later_iff hmn j).mp hj)
  rw [causalMask_later hlater]
  linarith [(hB h (Fin.castLE hmn i) j).2]

/-- Each weight of a row of the first `m` tokens shrinks by one common factor next to 1 when the
sequence grows, and the row's output moves by next to nothing; the last row needs no mask. -/
theorem attention_grows (hmn : m ≤ n) (hB : ∀ h i j, scores Real.sqrt Q K h i j ∈ Set.Icc (-B) B)
    (h : Fin nHeads) (i : Fin m) :
    (∃ lost : ℝ, 0 ≤ lost ∧ lost ≤ (n - m) * Real.exp (2 * B - 10 ^ 9) ∧
      (∀ j, weights Real.exp Real.sqrt Q K h (Fin.castLE hmn i) (Fin.castLE hmn j) = (1 - lost) *
        weights Real.exp Real.sqrt (firstTokens hmn Q) (firstTokens hmn K) h i j) ∧
      ∀ (V : Heads ℝ nHeads n dHead) (W : ℝ), (∀ j d, |V h j d| ≤ W) → ∀ d,
        |attention Real.exp Real.sqrt Q K V h (Fin.castLE hmn i) d -
          attention Real.exp Real.sqrt (firstTokens hmn Q) (firstTokens hmn K)
            (firstTokens hmn V) h i d| ≤ 2 * W * lost) ∧
    ((i : ℕ) + 1 = m → weights Real.exp Real.sqrt (firstTokens hmn Q) (firstTokens hmn K) h i =
      softmax Real.exp fun j =>
        scores Real.sqrt Q K h (Fin.castLE hmn i) (Fin.castLE hmn j)) := by
  refine ⟨⟨_, Softmax.lost_nonneg _ _, lost_le hmn hB h i, fun j => ?_, fun V W hV d => ?_⟩,
    fun hlast => ?_⟩
  · rw [weights_firstTokens, weights_eq]
    exact Softmax.weight_restrict (Fin.castLEEmb hmn) _ j
  · simp only [attention]
    rw [weights_firstTokens, weights_eq]
    exact Softmax.abs_mean_restrict_le (Fin.castLEEmb hmn) _ (fun j => hV j d) i
  · rw [weights_firstTokens, softmax_eq]
    congr 1
    funext j
    have hmask : ¬ Fin.castLE hmn i < Fin.castLE hmn j := by
      have hj := j.isLt
      simp only [Fin.lt_def, Fin.val_castLE]
      omega
    rw [causalMask, if_neg hmask, add_zero]

/-- The row of the first of two tokens was computed when it was alone. -/
theorem attention_grows_twoTokens :
    let ones : Heads ℝ 1 2 4 := fun _ _ _ => 1
    let V : Heads ℝ 1 2 4 := fun _ j d => if d = 0 then if j = 0 then 1 else 99 else 0
    let first : Heads ℝ 1 2 4 → Heads ℝ 1 1 4 := firstTokens one_le_two
    |attention Real.exp Real.sqrt ones ones V 0 0 0 -
      attention Real.exp Real.sqrt (first ones) (first ones) (first V) 0 0 0| ≤
        198 * Real.exp (4 - 10 ^ 9) := by
  intro ones V first
  have hroot : Real.sqrt 4 = 2 := by
    rw [show (4 : ℝ) = 2 ^ 2 by norm_num]
    exact Real.sqrt_sq (by norm_num)
  have hB : ∀ h i j, scores Real.sqrt ones ones h i j ∈ Set.Icc (-2) 2 := by
    intro h i j
    norm_num [scores, ones, hroot]
  have hV : ∀ j d, |V 0 j d| ≤ 99 := by
    intro j d
    by_cases hd : d = 0 <;> by_cases hj : j = 0 <;> simp [V, hd, hj]
  obtain ⟨⟨lost, -, hlost, -, hnear⟩, -⟩ := attention_grows one_le_two hB 0 0
  refine (hnear V 99 hV 0).trans ?_
  norm_num at hlost ⊢
  linarith

end Attention
end InferenceCluster
