import Mathlib.Algebra.Order.Floor.Ring
import Mathlib.Tactic.Linarith

/-! Rounding to the nearest integer, ties to the even one. It keeps the order and changes no
integer. -/

variable {K : Type*} [Field K] [LinearOrder K] [FloorRing K]

def roundInt (x : K) : ℤ :=
  if x - ⌊x⌋ < 1 - (x - ⌊x⌋) ∨ (x - ⌊x⌋ = 1 - (x - ⌊x⌋) ∧ ⌊x⌋ % 2 = 0) then ⌊x⌋ else ⌊x⌋ + 1

variable [IsStrictOrderedRing K]

theorem roundInt_intCast (n : ℤ) : roundInt (n : K) = n := by
  simp [roundInt]

omit [IsStrictOrderedRing K] in
theorem floor_le_roundInt (x : K) : ⌊x⌋ ≤ roundInt x := by
  unfold roundInt
  split_ifs <;> omega

omit [IsStrictOrderedRing K] in
theorem roundInt_le_floor (x : K) : roundInt x ≤ ⌊x⌋ + 1 := by
  unfold roundInt
  split_ifs <;> omega

theorem roundInt_mono {x y : K} (h : x ≤ y) : roundInt x ≤ roundInt y := by
  rcases (Int.floor_mono h).lt_or_eq with hlt | heq
  · have hx := roundInt_le_floor x
    have hy := floor_le_roundInt y
    omega
  · -- between two integers: above the middle once, above the middle after
    unfold roundInt
    rw [heq]
    split_ifs with hx hy hy
    · exact le_rfl
    · omega
    · exfalso
      apply hx
      rcases hy with hy | ⟨hy, heven⟩
      · left
        linarith
      · rcases h.lt_or_eq with hlt | rfl
        · left
          linarith
        · exact .inr ⟨hy, heven⟩
    · exact le_rfl
