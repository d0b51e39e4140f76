import Mathlib.Data.List.Perm.Basic

/-! Python's `heapq` on a list, over the elements' `<`. The two sifts carry a hole down or
up the list: what they keep is the list with the hole filled. -/

universe u

namespace Heapq

variable {α : Type u} (lt : α → α → Bool)

/-- The loop of `_siftdown`; the hole at `pos` moves towards `startpos`, in at most `pos`
moves. -/
def siftdownLoop (startpos : ℕ) (newitem : α) : ℕ → List α → ℕ → List α
  | 0, heap, pos => heap.set pos newitem
  | fuel + 1, heap, pos =>
    if pos ≤ startpos then heap.set pos newitem
    else
      let parentpos := (pos - 1) / 2
      match heap[parentpos]? with
      | some parent =>
        if lt newitem parent then siftdownLoop startpos newitem fuel (heap.set pos parent) parentpos
        else heap.set pos newitem
      | none => heap.set pos newitem

def siftdown (heap : List α) (startpos pos : ℕ) : List α :=
  match heap[pos]? with
  | some newitem => siftdownLoop lt startpos newitem pos heap pos
  | none => heap

/-- The index of the smaller of the children at `childpos` and beside it; where there are two,
the left one only if it is below the right one. -/
def smallerChild (heap : List α) (childpos : ℕ) : ℕ :=
  match heap[childpos]?, heap[childpos + 1]? with
  | some left, some right => if lt left right then childpos else childpos + 1
  | _, _ => childpos

/-- The first loop of `_siftup`: the hole at `pos` moves down to a leaf. -/
def bubble : ℕ → List α → ℕ → List α × ℕ
  | 0, heap, pos => (heap, pos)
  | fuel + 1, heap, pos =>
    let childpos := smallerChild lt heap (2 * pos + 1)
    match heap[childpos]? with
    | some child => bubble fuel (heap.set pos child) childpos
    | none => (heap, pos)

def siftup (heap : List α) (pos : ℕ) : List α :=
  match heap[pos]? with
  | some newitem =>
    let r := bubble lt heap.length heap pos
    siftdown lt (r.1.set r.2 newitem) pos r.2
  | none => heap

def heappush (heap : List α) (item : α) : List α :=
  siftdown lt (heap ++ [item]) 0 heap.length

/-- `none` is the `IndexError` of the empty heap. -/
def heappop (heap : List α) : Option (α × List α) :=
  match heap.getLast?, heap.dropLast with
  | none, _ => none
  | some lastelt, [] => some (lastelt, [])
  | some lastelt, returnitem :: rest => some (returnitem, siftup lt (lastelt :: rest) 0)

/-! ### The elements are kept -/

/-- Moving the element at `j` into the hole at `i` moves the hole to `j`. -/
theorem set_hole_perm {heap : List α} {i j : ℕ} {x y : α} (hi : i < heap.length)
    (hj : heap[j]? = some y) : ((heap.set i y).set j x).Perm (heap.set i x) := by
  obtain ⟨hjl, rfl⟩ := List.getElem?_eq_some_iff.mp hj
  by_cases hij : i = j
  · subst hij
    simp
  have hi' : i < (heap.set i x).length := by simpa using hi
  have hj' : j < (heap.set i x).length := by simpa using hjl
  have h := List.set_set_perm hi' hj'
  simpa [List.getElem_set_ne hij] using h

theorem siftdownLoop_perm (startpos : ℕ) (newitem : α) (fuel : ℕ) {heap : List α} {pos : ℕ}
    (hpos : pos < heap.length) :
    (siftdownLoop lt startpos newitem fuel heap pos).Perm (heap.set pos newitem) := by
  induction fuel generalizing heap pos with
  | zero => exact .rfl
  | succ fuel ih =>
    simp only [siftdownLoop]
    split_ifs with hs
    · exact .rfl
    split
    · rename_i parent hp
      split_ifs
      · have hlt : (pos - 1) / 2 < (heap.set pos parent).length := by
          rw [List.length_set]
          exact (List.getElem?_eq_some_iff.mp hp).1
        exact (ih hlt).trans (set_hole_perm hpos hp)
      · exact .rfl
    · exact .rfl

theorem siftdown_perm (heap : List α) (startpos pos : ℕ) :
    (siftdown lt heap startpos pos).Perm heap := by
  unfold siftdown
  split
  · rename_i newitem h
    obtain ⟨hpos, rfl⟩ := List.getElem?_eq_some_iff.mp h
    have hp := siftdownLoop_perm lt startpos heap[pos] pos hpos
    rwa [List.set_getElem_self] at hp
  · exact .rfl

theorem bubble_perm (newitem : α) (fuel : ℕ) {heap : List α} {pos : ℕ} (hpos : pos < heap.length) :
    ((bubble lt fuel heap pos).1.set (bubble lt fuel heap pos).2 newitem).Perm
      (heap.set pos newitem) := by
  induction fuel generalizing heap pos with
  | zero => exact .rfl
  | succ fuel ih =>
    simp only [bubble]
    split
    · rename_i child hc
      have hlt : smallerChild lt heap (2 * pos + 1) < (heap.set pos child).length := by
        rw [List.length_set]
        exact (List.getElem?_eq_some_iff.mp hc).1
      exact (ih hlt).trans (set_hole_perm hpos hc)
    · exact .rfl

theorem siftup_perm (heap : List α) (pos : ℕ) : (siftup lt heap pos).Perm heap := by
  unfold siftup
  split
  · rename_i newitem h
    obtain ⟨hpos, rfl⟩ := List.getElem?_eq_some_iff.mp h
    refine (siftdown_perm lt _ _ _).trans ?_
    have hp := bubble_perm lt heap[pos] heap.length hpos
    rwa [List.set_getElem_self] at hp
  · exact .rfl

theorem heappush_perm (heap : List α) (item : α) : (heappush lt heap item).Perm (item :: heap) :=
  (siftdown_perm lt _ _ _).trans (List.perm_append_singleton item heap)

@[simp] theorem heappop_nil : heappop lt [] = none := rfl

@[simp] theorem heappop_singleton (lastelt : α) : heappop lt [lastelt] = some (lastelt, []) := rfl

theorem heappop_cons_concat (returnitem lastelt : α) (rest : List α) :
    heappop lt (returnitem :: (rest ++ [lastelt])) =
      some (returnitem, siftup lt (lastelt :: rest) 0) := by
  rw [← List.cons_append, heappop, List.getLast?_concat, List.dropLast_concat]

theorem heappop_eq_none {heap : List α} : heappop lt heap = none ↔ heap = [] := by
  rcases heap with _ | ⟨returnitem, rest⟩
  · simp
  rcases rest.eq_nil_or_concat with rfl | ⟨rest, lastelt, rfl⟩
  · simp
  · simp [heappop_cons_concat]

theorem heappop_perm {heap heap' : List α} {item : α} (h : heappop lt heap = some (item, heap')) :
    heap.Perm (item :: heap') := by
  rcases heap with _ | ⟨returnitem, rest⟩
  · cases h
  rcases rest.eq_nil_or_concat with rfl | ⟨rest, lastelt, rfl⟩
  · obtain ⟨rfl, rfl⟩ := Prod.mk.inj (Option.some.inj h)
    exact .rfl
  · rw [List.concat_eq_append, heappop_cons_concat] at h
    obtain ⟨rfl, rfl⟩ := Prod.mk.inj (Option.some.inj h)
    rw [List.concat_eq_append]
    apply List.Perm.cons
    exact (List.perm_append_singleton lastelt rest).trans (siftup_perm lt _ 0).symm

/-! ### The order of the heap -/

/-- A strict weak order: Python's `<` on the elements, told apart by a key. -/
structure StrictWeak : Prop where
  asymm : ∀ a b, lt a b = true → lt b a = false
  trans : ∀ a b c, lt b a = false → lt c b = false → lt c a = false

variable {lt}

theorem StrictWeak.irrefl (w : StrictWeak lt) (a : α) : lt a a = false := by
  cases h : lt a a with
  | true => rw [w.asymm a a h] at h; cases h
  | false => rfl

/-- Below `b` and `b` at most `c`: below `c`. -/
theorem StrictWeak.lt_of_lt_of_le (w : StrictWeak lt) {a b c : α} (hab : lt a b = true)
    (hbc : lt c b = false) : lt a c = true := by
  cases h : lt a c with
  | true => rfl
  | false => rw [w.trans b c a hbc h] at hab; cases hab

variable (lt) in
/-- No element is below its parent. -/
def Ordered (heap : List α) : Prop :=
  ∀ i c p, 0 < i → heap[i]? = some c → heap[(i - 1) / 2]? = some p → lt c p = false

theorem ordered_nil : Ordered lt [] := by
  intro i c p _ hc
  simp at hc

/-- The element at the root of an ordered heap is the least. -/
theorem Ordered.root_le {heap : List α} (w : StrictWeak lt) (o : Ordered lt heap) {root : α}
    (hr : heap[0]? = some root) (i : ℕ) {c : α} (hc : heap[i]? = some c) : lt c root = false := by
  induction i using Nat.strongRecOn generalizing c with
  | _ i ih =>
    rcases Nat.eq_zero_or_pos i with rfl | hi
    · obtain rfl := Option.some.inj (hr.symm.trans hc)
      exact w.irrefl root
    · have hlen := (List.getElem?_eq_some_iff.mp hc).1
      have hlt : (i - 1) / 2 < heap.length := by omega
      have hp := List.getElem?_eq_getElem hlt
      exact w.trans _ _ _ (ih _ (by omega) hp) (o i c _ hi hc hp)

variable (lt) in
/-- Every pair of an element and its parent that does not touch the hole is in order, and
the children of the hole are not below its parent. -/
structure OrderedExcept (heap : List α) (hole : ℕ) : Prop where
  except : ∀ i c p, 0 < i → i ≠ hole → (i - 1) / 2 ≠ hole → heap[i]? = some c →
    heap[(i - 1) / 2]? = some p → lt c p = false
  grand : 0 < hole → ∀ i c p, 0 < i → (i - 1) / 2 = hole → heap[i]? = some c →
    heap[(hole - 1) / 2]? = some p → lt c p = false

theorem eq_of_getElem?_set_self {heap : List α} {i : ℕ} {x y : α}
    (h : (heap.set i x)[i]? = some y) : y = x := by
  rw [List.getElem?_set, if_pos rfl] at h
  split_ifs at h
  exact (Option.some.inj h).symm

/-- What is written into the hole is not seen by the pairs away from it. -/
theorem OrderedExcept.set {heap : List α} {hole : ℕ} (o : OrderedExcept lt heap hole) (x : α) :
    OrderedExcept lt (heap.set hole x) hole := by
  refine ⟨fun i c p hi hih hph hc hp => ?_, fun hh i c p hi hpar hc hp => ?_⟩
  · rw [List.getElem?_set_ne (Ne.symm hih)] at hc
    rw [List.getElem?_set_ne (Ne.symm hph)] at hp
    exact o.except i c p hi hih hph hc hp
  · rw [List.getElem?_set_ne (by omega)] at hc hp
    exact o.grand hh i c p hi hpar hc hp

/-- Filling the hole with an element between its parent and its children. -/
theorem OrderedExcept.fill {heap : List α} {hole : ℕ} {x : α} (o : OrderedExcept lt heap hole)
    (habove : ∀ p, 0 < hole → heap[(hole - 1) / 2]? = some p → lt x p = false)
    (hbelow : ∀ i c, 0 < i → (i - 1) / 2 = hole → heap[i]? = some c → lt c x = false) :
    Ordered lt (heap.set hole x) := by
  intro i c p hi hc hp
  by_cases hih : i = hole
  · subst hih
    obtain rfl := eq_of_getElem?_set_self hc
    rw [List.getElem?_set_ne (by omega)] at hp
    exact habove p hi hp
  rw [List.getElem?_set_ne (Ne.symm hih)] at hc
  by_cases hph : (i - 1) / 2 = hole
  · rw [hph] at hp
    obtain rfl := eq_of_getElem?_set_self hp
    exact hbelow i c hi hph hc
  · rw [List.getElem?_set_ne (Ne.symm hph)] at hp
    exact o.except i c p hi hih hph hc hp

/-- The hole moves up: the parent's element, above the new one, moves down into it. -/
theorem OrderedExcept.moveUp {heap : List α} {hole : ℕ} {x parent : α} (w : StrictWeak lt)
    (o : OrderedExcept lt heap hole) (hh : 0 < hole)
    (hpar : heap[(hole - 1) / 2]? = some parent) (hx : lt x parent = true) :
    OrderedExcept lt (heap.set hole parent) ((hole - 1) / 2) ∧
      ∀ i c, 0 < i → (i - 1) / 2 = (hole - 1) / 2 → (heap.set hole parent)[i]? = some c →
        lt c x = false := by
  -- the hole's siblings are not below the parent
  have hsib : ∀ i c, 0 < i → (i - 1) / 2 = (hole - 1) / 2 →
      (heap.set hole parent)[i]? = some c → lt c parent = false := by
    intro i c hi hpi hc
    by_cases hih : i = hole
    · subst hih
      obtain rfl := eq_of_getElem?_set_self hc
      exact w.irrefl c
    · rw [List.getElem?_set_ne (Ne.symm hih)] at hc
      exact o.except i c parent hi hih (by omega) hc (by rwa [hpi])
  refine ⟨⟨?_, ?_⟩, ?_⟩
  · intro i c p hi hih hph hc hp
    have hne : i ≠ hole := by rintro rfl; exact hph rfl
    rw [List.getElem?_set_ne (Ne.symm hne)] at hc
    by_cases heq : (i - 1) / 2 = hole
    · rw [heq] at hp
      obtain rfl := eq_of_getElem?_set_self hp
      exact o.grand hh i c p hi heq hc hpar
    · rw [List.getElem?_set_ne (Ne.symm heq)] at hp
      exact o.except i c p hi hne heq hc hp
  · intro hpos i c p hi hpi hc hp
    rw [List.getElem?_set_ne (by omega)] at hp
    have hup : lt parent p = false :=
      o.except ((hole - 1) / 2) parent p hpos (by omega) (by omega) hpar hp
    exact w.trans _ _ _ hup (hsib i c hi hpi hc)
  · intro i c hi hpi hc
    exact w.asymm _ _ (w.lt_of_lt_of_le hx (hsib i c hi hpi hc))

theorem siftdownLoop_ordered (w : StrictWeak lt) (newitem : α) (fuel : ℕ) {heap : List α}
    {pos : ℕ} (hf : pos ≤ fuel) (hpos : pos < heap.length) (o : OrderedExcept lt heap pos)
    (hbelow : ∀ i c, 0 < i → (i - 1) / 2 = pos → heap[i]? = some c → lt c newitem = false) :
    Ordered lt (siftdownLoop lt 0 newitem fuel heap pos) := by
  induction fuel generalizing heap pos with
  | zero =>
    obtain rfl : pos = 0 := by omega
    exact o.fill (fun _ h => absurd h (Nat.lt_irrefl 0)) hbelow
  | succ fuel ih =>
    simp only [siftdownLoop]
    split_ifs with hs
    · exact o.fill (fun _ h => absurd h (by omega)) hbelow
    have hlt : (pos - 1) / 2 < heap.length := by omega
    have hp := List.getElem?_eq_getElem hlt
    rw [hp]
    dsimp only
    split_ifs with hx
    · obtain ⟨o', hb'⟩ := o.moveUp w (by omega) hp hx
      exact ih (by omega) (by rwa [List.length_set]) o' hb'
    · refine o.fill (fun p _ hp' => ?_) hbelow
      rw [hp] at hp'
      obtain rfl := Option.some.inj hp'
      simpa using hx

/-! The child that `bubble` takes is the least of the two. -/

theorem smallerChild_of_some {heap : List α} {childpos : ℕ} {left right : α}
    (hl : heap[childpos]? = some left) (hr : heap[childpos + 1]? = some right) :
    smallerChild lt heap childpos = if lt left right then childpos else childpos + 1 := by
  simp only [smallerChild, hl, hr]

theorem smallerChild_of_none {heap : List α} {childpos : ℕ}
    (hr : heap[childpos + 1]? = none) : smallerChild lt heap childpos = childpos := by
  cases hl : heap[childpos]? <;> simp only [smallerChild, hl, hr]

theorem getElem?_of_succ {heap : List α} {i : ℕ} {right : α} (hr : heap[i + 1]? = some right) :
    ∃ left, heap[i]? = some left := by
  have hlen := (List.getElem?_eq_some_iff.mp hr).1
  have hlt : i < heap.length := by omega
  exact ⟨_, List.getElem?_eq_getElem hlt⟩

theorem smallerChild_spec (w : StrictWeak lt) {heap : List α} {childpos : ℕ} {child : α}
    (hc : heap[smallerChild lt heap childpos]? = some child) :
    (smallerChild lt heap childpos = childpos ∨ smallerChild lt heap childpos = childpos + 1) ∧
      (∀ c, heap[childpos]? = some c → lt c child = false) ∧
      ∀ c, heap[childpos + 1]? = some c → lt c child = false := by
  cases hr : heap[childpos + 1]? with
  | none =>
    rw [smallerChild_of_none hr] at hc ⊢
    refine ⟨.inl rfl, fun c hl => ?_, by simp⟩
    obtain rfl := Option.some.inj (hc.symm.trans hl)
    exact w.irrefl _
  | some right =>
    obtain ⟨left, hl⟩ := getElem?_of_succ hr
    rw [smallerChild_of_some hl hr] at hc ⊢
    rw [hl]
    split_ifs at hc ⊢ with hlt
    · obtain rfl := Option.some.inj (hl.symm.trans hc)
      refine ⟨.inl rfl, fun c h => ?_, fun c h => ?_⟩
      · obtain rfl := Option.some.inj h
        exact w.irrefl _
      · obtain rfl := Option.some.inj h
        exact w.asymm _ _ hlt
    · obtain rfl := Option.some.inj (hr.symm.trans hc)
      refine ⟨.inr rfl, fun c h => ?_, fun c h => ?_⟩
      · obtain rfl := Option.some.inj h
        simpa using hlt
      · obtain rfl := Option.some.inj h
        exact w.irrefl _

theorem smallerChild_none {heap : List α} {childpos : ℕ}
    (hc : heap[smallerChild lt heap childpos]? = none) : heap.length ≤ childpos := by
  cases hr : heap[childpos + 1]? with
  | none =>
    rw [smallerChild_of_none hr] at hc
    exact List.getElem?_eq_none_iff.mp hc
  | some right =>
    obtain ⟨left, hl⟩ := getElem?_of_succ hr
    rw [smallerChild_of_some hl hr] at hc
    split_ifs at hc
    · rw [hl] at hc; cases hc
    · rw [hr] at hc; cases hc

/-- The hole moves down: the least child moves up into it. -/
theorem OrderedExcept.moveDown {heap : List α} {hole k : ℕ} {child : α}
    (o : OrderedExcept lt heap hole) (hk : k = 2 * hole + 1 ∨ k = 2 * hole + 1 + 1)
    (hc : heap[k]? = some child)
    (hmin : ∀ i c, 0 < i → (i - 1) / 2 = hole → heap[i]? = some c → lt c child = false) :
    OrderedExcept lt (heap.set hole child) k := by
  refine ⟨?_, ?_⟩
  · intro i c p hi hik hpk hc' hp
    by_cases hih : i = hole
    · subst hih
      obtain rfl := eq_of_getElem?_set_self hc'
      rw [List.getElem?_set_ne (by omega)] at hp
      exact o.grand hi k c p (by omega) (by omega) hc hp
    rw [List.getElem?_set_ne (Ne.symm hih)] at hc'
    by_cases hph : (i - 1) / 2 = hole
    · rw [hph] at hp
      obtain rfl := eq_of_getElem?_set_self hp
      exact hmin i c hi hph hc'
    · rw [List.getElem?_set_ne (Ne.symm hph)] at hp
      exact o.except i c p hi hih hph hc' hp
  · intro hkpos i c p hi hpi hc' hp
    rw [show (k - 1) / 2 = hole by omega] at hp
    obtain rfl := eq_of_getElem?_set_self hp
    rw [List.getElem?_set_ne (by omega)] at hc'
    exact o.except i c p hi (by omega) (by omega) hc' (by rwa [hpi])

/-- The hole ends at a leaf. -/
theorem bubble_ordered (w : StrictWeak lt) (fuel : ℕ) {heap : List α} {pos : ℕ}
    (hpos : pos < heap.length) (hf : heap.length ≤ pos + fuel) (o : OrderedExcept lt heap pos) :
    OrderedExcept lt (bubble lt fuel heap pos).1 (bubble lt fuel heap pos).2 ∧
      (bubble lt fuel heap pos).1.length = heap.length ∧
      (bubble lt fuel heap pos).2 < heap.length ∧
      heap.length ≤ 2 * (bubble lt fuel heap pos).2 + 1 := by
  induction fuel generalizing heap pos with
  | zero => omega
  | succ fuel ih =>
    simp only [bubble]
    cases hc : heap[smallerChild lt heap (2 * pos + 1)]? with
    | none => exact ⟨o, rfl, hpos, smallerChild_none hc⟩
    | some child =>
      obtain ⟨hk, hleft, hright⟩ := smallerChild_spec w hc
      have hlen := (List.getElem?_eq_some_iff.mp hc).1
      have o' := o.moveDown hk hc fun i c hi hpi hic => by
        rcases (by omega : i = 2 * pos + 1 ∨ i = 2 * pos + 1 + 1) with rfl | rfl
        · exact hleft c hic
        · exact hright c hic
      have h := ih (by rw [List.length_set]; exact hlen) (by rw [List.length_set]; omega) o'
      rwa [List.length_set] at h

theorem siftup_ordered (w : StrictWeak lt) {heap : List α} (o : OrderedExcept lt heap 0) :
    Ordered lt (siftup lt heap 0) := by
  unfold siftup
  cases h : heap[0]? with
  | none =>
    obtain rfl : heap = [] := by simpa using h
    exact ordered_nil
  | some newitem =>
    have hpos := (List.getElem?_eq_some_iff.mp h).1
    obtain ⟨ob, hlen, hlt, hleaf⟩ := bubble_ordered w heap.length hpos (by omega) o
    dsimp only
    generalize bubble lt heap.length heap 0 = r at ob hlen hlt hleaf ⊢
    have hget : (r.1.set r.2 newitem)[r.2]? = some newitem :=
      List.getElem?_set_self (by rw [hlen]; exact hlt)
    simp only [siftdown, hget]
    refine siftdownLoop_ordered w newitem r.2 (Nat.le_refl _) ?_ (ob.set newitem) fun i c hi hpi hc => ?_
    · rw [List.length_set, hlen]
      exact hlt
    · -- a leaf has no children
      have := (List.getElem?_eq_some_iff.mp hc).1
      rw [List.length_set] at this
      omega

theorem heappush_ordered (w : StrictWeak lt) {heap : List α} (o : Ordered lt heap) (item : α) :
    Ordered lt (heappush lt heap item) := by
  have hget : (heap ++ [item])[heap.length]? = some item := by simp
  have hlen : heap.length < (heap ++ [item]).length := by simp
  simp only [heappush, siftdown, hget]
  refine siftdownLoop_ordered w item heap.length (Nat.le_refl _) hlen ⟨?_, ?_⟩ fun i c hi hpi hc => ?_
  · intro i c p hi hih hph hc hp
    have := (List.getElem?_eq_some_iff.mp hc).1
    rw [List.length_append, List.length_singleton] at this
    rw [List.getElem?_append_left (by omega)] at hc hp
    exact o i c p hi hc hp
  · intro hh i c p hi hpi hc
    have := (List.getElem?_eq_some_iff.mp hc).1
    rw [List.length_append, List.length_singleton] at this
    omega
  · have := (List.getElem?_eq_some_iff.mp hc).1
    rw [List.length_append, List.length_singleton] at this
    omega

/-- What is popped is the least element, and the heap stays ordered. -/
theorem heappop_ordered (w : StrictWeak lt) {heap heap' : List α} {item : α}
    (o : Ordered lt heap) (h : heappop lt heap = some (item, heap')) :
    Ordered lt heap' ∧ ∀ c ∈ heap, lt c item = false := by
  have hroot : heap[0]? = some item ∧ Ordered lt heap' := by
    rcases heap with _ | ⟨returnitem, rest⟩
    · cases h
    rcases rest.eq_nil_or_concat with rfl | ⟨rest, lastelt, rfl⟩
    · obtain ⟨rfl, rfl⟩ := Prod.mk.inj (Option.some.inj h)
      exact ⟨rfl, ordered_nil⟩
    · rw [List.concat_eq_append, heappop_cons_concat] at h
      obtain ⟨rfl, rfl⟩ := Prod.mk.inj (Option.some.inj h)
      -- away from the root the list is the old one without its last element
      have hkeep : ∀ j x, 0 < j → (lastelt :: rest)[j]? = some x →
          (returnitem :: (rest ++ [lastelt]))[j]? = some x := by
        intro j x hj hx
        obtain ⟨j, rfl⟩ := Nat.exists_eq_add_one_of_ne_zero (Nat.ne_of_gt hj)
        rw [List.getElem?_cons_succ] at hx ⊢
        rwa [List.getElem?_append_left (List.getElem?_eq_some_iff.mp hx).1]
      refine ⟨rfl, siftup_ordered w ⟨?_, fun h => absurd h (Nat.lt_irrefl 0)⟩⟩
      intro i c p hi _ hpi hc hp
      rw [List.concat_eq_append] at o
      exact o i c p hi (hkeep i c hi hc) (hkeep _ p (Nat.pos_of_ne_zero hpi) hp)
  refine ⟨hroot.2, fun c hc => ?_⟩
  obtain ⟨i, hi⟩ := List.getElem?_of_mem hc
  exact o.root_le w hroot.1 i hi

end Heapq
