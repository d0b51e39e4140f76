import Mathlib.Data.List.Nodup
import Mathlib.Data.List.Perm.Lattice
import Mathlib.Data.List.Rotate

/-! The distinct entries of a list in the order of their first occurrence, and what
filtering the list does to that order. -/

universe u

namespace List

variable {α : Type u} [DecidableEq α]

/-- The entries of `l` outside `seen`, each at its first occurrence only. -/
def firsts (seen : List α) : List α → List α
  | [] => []
  | x :: l => if x ∈ seen then firsts seen l else x :: firsts (x :: seen) l

theorem firsts_congr {s t l : List α} (h : ∀ x ∈ l, x ∈ s ↔ x ∈ t) : firsts s l = firsts t l := by
  induction l generalizing s t with
  | nil => rfl
  | cons x l ih =>
    have hx := h x mem_cons_self
    have hl : ∀ y ∈ l, y ∈ s ↔ y ∈ t := fun y hy => h y (mem_cons_of_mem x hy)
    by_cases hs : x ∈ s
    · simp only [firsts, hs, hx.mp hs, if_true]
      exact ih hl
    · simp only [firsts, hs, mt hx.mpr hs, if_false]
      rw [ih (t := x :: t) fun y hy => by rw [mem_cons, mem_cons, hl y hy]]

theorem mem_firsts {s l : List α} {x : α} : x ∈ firsts s l ↔ x ∈ l ∧ x ∉ s := by
  induction l generalizing s with
  | nil => simp [firsts]
  | cons y l ih =>
    by_cases hy : y ∈ s
    · simp only [firsts, hy, if_true, ih, mem_cons]
      refine ⟨fun h => ⟨Or.inr h.1, h.2⟩, ?_⟩
      rintro ⟨rfl | h, hs⟩
      · exact absurd hy hs
      · exact ⟨h, hs⟩
    · by_cases hx : x = y
      · subst hx
        simp [firsts, hy]
      · simp [firsts, hy, ih, hx]

theorem firsts_nodup (s l : List α) : (firsts s l).Nodup := by
  induction l generalizing s with
  | nil => exact nodup_nil
  | cons x l ih =>
    rw [firsts]
    split_ifs with hx
    · exact ih s
    · exact nodup_cons.mpr ⟨fun hm => (mem_firsts.mp hm).2 mem_cons_self, ih _⟩

/-- Leaving entries out does not change the order of the others. -/
theorem firsts_filter (p : α → Bool) (s l : List α) :
    firsts s (l.filter p) = (firsts s l).filter p := by
  induction l generalizing s with
  | nil => rfl
  | cons x l ih =>
    by_cases hx : x ∈ s
    · cases hp : p x <;> simp [firsts, hx, hp, ih]
    · cases hp : p x with
      | true => simp [firsts, hx, hp, ih]
      | false =>
        have hs : ∀ y ∈ l.filter p, y ∈ s ↔ y ∈ x :: s := by
          intro y hy
          have hyx : y ≠ x := fun he => by simp [he, hp] at hy
          simp [hyx]
        rw [filter_cons_of_neg (by simp [hp]), firsts_congr hs, ih (x :: s), firsts, if_neg hx,
          filter_cons_of_neg (by simp [hp])]

theorem firsts_perm {s l m : List α} (hm : m.Nodup) (h : ∀ x, x ∈ m ↔ x ∈ l ∧ x ∉ s) :
    (firsts s l).Perm m :=
  (perm_ext_iff_of_nodup (firsts_nodup s l) hm).mpr fun x => mem_firsts.trans (h x).symm

theorem head?_firsts (l : List α) : (firsts [] l).head? = l.head? := by
  cases l <;> simp [firsts]

/-- The list read from index `i` on, wrapping around at the end. -/
def clockwise (i : ℕ) (l : List α) : List α :=
  ofFn fun j : Fin l.length => l.get ⟨(i + j) % l.length, Nat.mod_lt _ j.pos⟩

omit [DecidableEq α] in
theorem clockwise_eq {i : ℕ} {l : List α} (hi : i ≤ l.length) :
    clockwise i l = l.drop i ++ l.take i := by
  rw [← rotate_eq_drop_append_take hi]
  refine ext_getElem (by simp [clockwise]) fun j h₁ h₂ => ?_
  simp [clockwise, getElem_rotate, Nat.add_comm]

omit [DecidableEq α] in
theorem head?_clockwise {i : ℕ} {l : List α} (hi : i ≤ l.length) :
    (clockwise i l).head? = l[if l.length ≤ i then 0 else i]? := by
  rw [clockwise_eq hi]
  split_ifs with h
  · rw [drop_eq_nil_of_le h, take_of_length_le h, nil_append, head?_eq_getElem?]
  · rw [head?_append, head?_drop, getElem?_eq_getElem (not_le.mp h), Option.some_or]

end List
