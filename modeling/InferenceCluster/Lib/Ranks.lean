import Mathlib.Data.List.Sort

/-! Ranks in a sorted list: how many of its elements are at most a given one, and when the
element of rank `⌊q n / 100⌋` is a percentile. -/

namespace Ranks

variable {α : Type} [LinearOrder α] {s : List α} {x : α}

theorem lt_countP_iff (hs : s.Pairwise (· ≤ ·)) {m : ℕ} :
    m < s.countP (· ≤ x) ↔ ∃ y, s[m]? = some y ∧ y ≤ x := by
  induction s generalizing m with
  | nil => simp
  | cons a s ih =>
    obtain ⟨ha, hs⟩ := List.pairwise_cons.mp hs
    by_cases hax : a ≤ x
    · rw [List.countP_cons_of_pos (by simpa using hax)]
      cases m with
      | zero => simpa using hax
      | succ m => rw [Nat.succ_lt_succ_iff, ih hs, List.getElem?_cons_succ]
    · -- nothing after `a` is any smaller
      have hall : ∀ y ∈ a :: s, ¬y ≤ x := by
        intro y hy hyx
        rcases List.mem_cons.mp hy with rfl | hy
        · exact hax hyx
        · exact hax ((ha y hy).trans hyx)
      have hnone : (a :: s).countP (· ≤ x) = 0 := by
        rw [List.countP_eq_zero]
        exact fun y hy => by simpa using hall y hy
      rw [hnone]
      refine iff_of_false (Nat.not_lt_zero m) ?_
      rintro ⟨y, hy, hyx⟩
      exact hall y (List.mem_of_getElem? hy) hyx

theorem getElem?_mono (hs : s.Pairwise (· ≤ ·)) {i j : ℕ} (hij : i ≤ j) {y z : α}
    (hy : s[i]? = some y) (hz : s[j]? = some z) : y ≤ z := by
  obtain ⟨hi, rfl⟩ := List.getElem?_eq_some_iff.mp hy
  obtain ⟨hj, rfl⟩ := List.getElem?_eq_some_iff.mp hz
  rcases hij.eq_or_lt with rfl | hlt
  · exact le_rfl
  · exact List.pairwise_iff_getElem.mp hs i j hi hj hlt

/-- At least `q` percent of the elements are at most the one of rank `⌊q n / 100⌋`, counted
from one, if and only if that rank needs no rounding or the next rank is a tie. -/
theorem percentile_iff (hs : s.Pairwise (· ≤ ·)) {q : ℕ} (hq : q < 100)
    (hx : s[s.length * q / 100 - 1]? = some x) :
    s.length * q ≤ 100 * s.countP (· ≤ x) ↔
      100 ∣ s.length * q ∨ s[s.length * q / 100]? = some x := by
  have hlen : s.length * q / 100 - 1 < s.length := (List.getElem?_eq_some_iff.mp hx).1
  have hk : s.length * q / 100 < s.length := by
    have hlt : s.length * q < s.length * 100 := Nat.mul_lt_mul_of_pos_left hq (Nat.zero_lt_of_lt hlen)
    omega
  have hbelow : s.length * q / 100 ≤ s.countP (· ≤ x) := by
    have hlt := (lt_countP_iff hs).mpr ⟨x, hx, le_rfl⟩
    omega
  have htie : s.length * q / 100 < s.countP (· ≤ x) ↔ s[s.length * q / 100]? = some x := by
    rw [lt_countP_iff hs]
    constructor
    · rintro ⟨y, hy, hle⟩
      rw [hy, hle.antisymm (getElem?_mono hs (Nat.sub_le _ 1) hx hy)]
    · exact fun h => ⟨x, h, le_rfl⟩
  rw [← htie]
  omega

end Ranks
