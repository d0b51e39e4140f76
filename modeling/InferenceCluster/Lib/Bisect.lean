import Mathlib.Order.Defs.LinearOrder
import Mathlib.Data.List.Sort
import Mathlib.Tactic

/-! Binary search in a sorted list: `bisect_left`, `bisect_right` and `insort`. On a
sorted list the index found splits it into the entries before and the entries after,
which are plain filters of the list. -/

universe u

namespace Bisect

variable {α : Type u}

/-- The loop `while lo < hi`: the first index of `a` that satisfies `p`, the entries
before it failing `p`. The window halves, so `fuel = len(a)` rounds are enough. -/
def search (p : α → Bool) (a : List α) : ℕ → ℕ → ℕ → ℕ
  | 0, lo, _ => lo
  | fuel + 1, lo, hi =>
    if lo < hi then
      let mid := (lo + hi) / 2
      if a[mid]?.any p then search p a fuel lo mid else search p a fuel (mid + 1) hi
    else lo

theorem search_eq {p : α → Bool} {l r : List α} (hl : ∀ x ∈ l, p x = false)
    (hr : ∀ x ∈ r, p x = true) (fuel lo hi : ℕ) (h₁ : lo ≤ l.length) (h₂ : l.length ≤ hi)
    (h₃ : hi ≤ (l ++ r).length) (h₄ : hi - lo ≤ fuel) :
    search p (l ++ r) fuel lo hi = l.length := by
  induction fuel generalizing lo hi with
  | zero => simp only [search]; omega
  | succ fuel ih =>
    simp only [search]
    split_ifs with hlt hp
    · refine ih lo _ h₁ ?_ (by omega) (by omega)
      by_contra hm
      rw [List.getElem?_append_left (by omega), List.getElem?_eq_getElem (by omega)] at hp
      simp [hl _ (List.getElem_mem _)] at hp
    · refine ih _ hi ?_ h₂ h₃ (by omega)
      by_contra hm
      rw [List.length_append] at h₃
      rw [List.getElem?_append_right (by omega), List.getElem?_eq_getElem (by omega)] at hp
      simp [hr _ (List.getElem_mem _)] at hp
    · omega

/-- A list on which `p` never turns false again splits at the first entry with `p`. -/
theorem eq_filter_append {p : α → Bool} {a : List α}
    (h : a.Pairwise fun x y => p x = true → p y = true) :
    a = a.filter (fun x => !p x) ++ a.filter p := by
  induction a with
  | nil => rfl
  | cons x a ih =>
    rw [List.pairwise_cons] at h
    cases hx : p x with
    | false => simpa [hx] using ih h.2
    | true =>
      have hall : ∀ y ∈ a, p y = true := fun y hy => h.1 y hy hx
      rw [List.filter_cons_of_neg (by simp [hx]), List.filter_cons_of_pos hx,
        List.filter_eq_nil_iff.mpr (by simpa using hall), List.filter_eq_self.mpr hall]
      rfl

theorem search_filter {p : α → Bool} {a : List α}
    (h : a.Pairwise fun x y => p x = true → p y = true) :
    search p a a.length 0 a.length = (a.filter fun x => !p x).length := by
  have hs := eq_filter_append h
  conv_lhs => rw [hs]
  refine search_eq ?_ ?_ _ _ _ (Nat.zero_le _) ?_ le_rfl le_rfl
  · intro x hx
    simpa using (List.mem_filter.mp hx).2
  · intro x hx
    exact (List.mem_filter.mp hx).2
  · rw [List.length_append]
    exact Nat.le_add_right _ _

theorem insertIdx_length_append (l r : List α) (x : α) :
    (l ++ r).insertIdx l.length x = l ++ x :: r := by
  induction l with
  | nil => exact List.insertIdx_zero
  | cons y l ih => simp only [List.cons_append, List.length_cons, List.insertIdx_succ_cons, ih]

variable [LinearOrder α]

/-- The leftmost place for `x`: before the entries equal to it. -/
def bisectLeft (a : List α) (x : α) : ℕ :=
  search (fun y => !decide (y < x)) a a.length 0 a.length

/-- The rightmost place for `x`: after the entries equal to it. -/
def bisectRight (a : List α) (x : α) : ℕ :=
  search (fun y => decide (x < y)) a a.length 0 a.length

def insort (a : List α) (x : α) : List α := a.insertIdx (bisectRight a x) x

theorem bisectLeft_eq {a : List α} (h : a.Pairwise (· ≤ ·)) (x : α) :
    bisectLeft a x = (a.filter (· < x)).length := by
  rw [bisectLeft, search_filter]
  · simp
  · refine h.imp fun {y z} hyz hy => ?_
    simp only [Bool.not_eq_true', decide_eq_false_iff_not, not_lt] at hy ⊢
    exact hy.trans hyz

theorem take_bisectLeft {a : List α} (h : a.Pairwise (· ≤ ·)) (x : α) :
    a.take (bisectLeft a x) = a.filter (· < x) ∧ a.drop (bisectLeft a x) = a.filter (x ≤ ·) := by
  have hs : a = a.filter (· < x) ++ a.filter (x ≤ ·) := by
    have hp := eq_filter_append (p := fun y => decide (x ≤ y)) (a := a)
      (h.imp fun {y z} hyz hy => by
        simp only [decide_eq_true_eq] at hy ⊢
        exact hy.trans hyz)
    simpa only [← decide_not, not_le] using hp
  rw [bisectLeft_eq h]
  exact ⟨(congrArg (List.take _) hs).trans (List.take_left' rfl),
    (congrArg (List.drop _) hs).trans (List.drop_left' rfl)⟩

theorem insort_eq {a : List α} (h : a.Pairwise (· ≤ ·)) (x : α) :
    insort a x = a.filter (· ≤ x) ++ x :: a.filter (x < ·) := by
  have hp : a.Pairwise fun y z => decide (x < y) = true → decide (x < z) = true :=
    h.imp fun {y z} hyz hy => by
      simp only [decide_eq_true_eq] at hy ⊢
      exact lt_of_lt_of_le hy hyz
  have hs := eq_filter_append hp
  simp only [← decide_not, not_lt] at hs
  rw [insort, bisectRight, search_filter hp]
  simp only [← decide_not, not_lt]
  exact (congrArg (List.insertIdx · _ x) hs).trans (insertIdx_length_append _ _ x)

theorem insort_perm (a : List α) (x : α) (h : a.Pairwise (· ≤ ·)) : (insort a x).Perm (x :: a) := by
  rw [insort_eq h]
  refine List.perm_middle.trans (List.Perm.cons x ?_)
  have hp := List.filter_append_perm (fun y => decide (y ≤ x)) a
  simpa only [← decide_not, not_le] using hp

theorem insort_sorted {a : List α} (x : α) (h : a.Pairwise (· ≤ ·)) :
    (insort a x).Pairwise (· ≤ ·) := by
  rw [insort_eq h, List.pairwise_append, List.pairwise_cons]
  simp only [List.mem_filter, decide_eq_true_eq, List.mem_cons]
  refine ⟨h.filter _, ⟨fun y hy => hy.2.le, h.filter _⟩, ?_⟩
  rintro y ⟨-, hy⟩ z (rfl | ⟨-, hz⟩)
  · exact hy
  · exact hy.trans hz.le

end Bisect
