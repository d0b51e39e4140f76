import Mathlib.Data.List.Nodup
import Mathlib.Data.List.Perm.Lattice

/-! Dictionaries in the order of insertion: assigning to a present key keeps its
place, a new key goes to the end, and no key occurs twice. -/

universe u v

/-- The entries of a dictionary, oldest key first, with the proof that keys are distinct. -/
structure PyDict (κ : Type u) (ν : Type v) where
  items : List (κ × ν)
  nodup : (items.map Prod.fst).Nodup

namespace PyDict

variable {κ : Type u} {ν : Type v} [DecidableEq κ]

/-! ### Association lists -/

def find (k : κ) : List (κ × ν) → Option ν
  | [] => none
  | p :: l => if p.1 = k then some p.2 else find k l

def put (k : κ) (v : ν) : List (κ × ν) → List (κ × ν)
  | [] => [(k, v)]
  | p :: l => if p.1 = k then (k, v) :: l else p :: put k v l

def del (k : κ) : List (κ × ν) → List (κ × ν)
  | [] => []
  | p :: l => if p.1 = k then l else p :: del k l

theorem find_eq_none_iff {k : κ} {l : List (κ × ν)} : find k l = none ↔ k ∉ l.map Prod.fst := by
  induction l with
  | nil => simp [find]
  | cons p l ih =>
    by_cases h : p.1 = k
    · simp [find, h]
    · simp [find, h, ih, Ne.symm h]

theorem mem_of_find {k : κ} {v : ν} {l : List (κ × ν)} (h : find k l = some v) : (k, v) ∈ l := by
  induction l with
  | nil => simp [find] at h
  | cons p l ih =>
    by_cases hk : p.1 = k
    · simp only [find, hk, if_true, Option.some.injEq] at h
      subst hk h
      exact List.mem_cons_self
    · simp only [find, hk, if_false] at h
      exact List.mem_cons_of_mem _ (ih h)

theorem find_of_mem {k : κ} {v : ν} {l : List (κ × ν)} (hn : (l.map Prod.fst).Nodup)
    (h : (k, v) ∈ l) : find k l = some v := by
  induction l with
  | nil => simp at h
  | cons p l ih =>
    rw [List.map_cons, List.nodup_cons] at hn
    rcases List.mem_cons.mp h with rfl | h
    · simp [find]
    · have hk : p.1 ≠ k := fun he => hn.1 (he ▸ List.mem_map_of_mem (f := Prod.fst) h)
      simpa [find, hk] using ih hn.2 h

theorem find_put (k k' : κ) (v : ν) (l : List (κ × ν)) :
    find k' (put k v l) = if k' = k then some v else find k' l := by
  induction l with
  | nil => simp only [put, find, eq_comm]
  | cons p l ih =>
    by_cases hk : p.1 = k
    · subst hk
      by_cases hk' : k' = p.1
      · simp [put, find, hk']
      · simp [put, find, hk', Ne.symm hk']
    · by_cases hk' : k' = k
      · subst hk'
        simp [put, find, hk, ih]
      · simp [put, find, hk, ih, hk']

theorem map_fst_put (k : κ) (v : ν) (l : List (κ × ν)) :
    (put k v l).map Prod.fst = if k ∈ l.map Prod.fst then l.map Prod.fst else l.map Prod.fst ++ [k] := by
  induction l with
  | nil => simp [put]
  | cons p l ih =>
    by_cases hk : p.1 = k
    · simp [put, hk]
    · simp only [put, hk, if_false, List.map_cons, ih, List.mem_cons, Ne.symm hk, false_or]
      split_ifs <;> simp

theorem del_sublist (k : κ) (l : List (κ × ν)) : (del k l).Sublist l := by
  induction l with
  | nil => exact List.Sublist.refl _
  | cons p l ih =>
    rw [del]
    split_ifs with hk
    · exact List.sublist_cons_self p l
    · exact ih.cons_cons p

theorem find_del (k k' : κ) (l : List (κ × ν)) (hn : (l.map Prod.fst).Nodup) :
    find k' (del k l) = if k' = k then none else find k' l := by
  induction l with
  | nil => simp [del, find]
  | cons p l ih =>
    rw [List.map_cons, List.nodup_cons] at hn
    by_cases hk : p.1 = k
    · subst hk
      by_cases hk' : k' = p.1
      · simpa [del, hk'] using find_eq_none_iff.mpr hn.1
      · simp [del, find, hk', Ne.symm hk']
    · by_cases hk' : p.1 = k'
      · subst hk'
        simp [del, find, hk]
      · simp [del, find, hk, hk', ih hn.2]

/-- Removing a present key takes its entry, and only that one, out. -/
theorem perm_del {k : κ} {v : ν} {l : List (κ × ν)} (h : find k l = some v) :
    l.Perm ((k, v) :: del k l) := by
  induction l with
  | nil => simp [find] at h
  | cons p l ih =>
    by_cases hk : p.1 = k
    · simp only [find, hk, if_true, Option.some.injEq] at h
      subst hk h
      simp [del]
    · simp only [find, hk, if_false] at h
      simp only [del, hk, if_false]
      exact ((ih h).cons p).trans (List.Perm.swap _ _ _)

theorem del_of_find_none {k : κ} {l : List (κ × ν)} (h : find k l = none) : del k l = l := by
  induction l with
  | nil => rfl
  | cons p l ih =>
    by_cases hk : p.1 = k
    · simp [find, hk] at h
    · simp only [find, hk, if_false] at h
      simp [del, hk, ih h]

/-- A new key goes to the end. -/
theorem put_of_find_none {k : κ} (v : ν) {l : List (κ × ν)} (h : find k l = none) :
    put k v l = l ++ [(k, v)] := by
  induction l with
  | nil => rfl
  | cons p l ih =>
    by_cases hk : p.1 = k
    · simp [find, hk] at h
    · simp only [find, hk, if_false] at h
      simp [put, hk, ih h]

/-- Putting back what is there changes nothing. -/
theorem put_of_find {k : κ} {v : ν} {l : List (κ × ν)} (h : find k l = some v) :
    put k v l = l := by
  induction l with
  | nil => simp [find] at h
  | cons p l ih =>
    by_cases hk : p.1 = k
    · simp only [find, hk, if_true, Option.some.injEq] at h
      subst hk h
      simp [put]
    · simp only [find, hk, if_false] at h
      simp [put, hk, ih h]

/-! ### Dictionaries -/

/-- `{}` -/
def empty : PyDict κ ν := ⟨[], List.nodup_nil⟩

/-- `d.get(k)` -/
def get? (d : PyDict κ ν) (k : κ) : Option ν := find k d.items

/-- What `d[k]` raises when `k` is absent. -/
structure KeyError (κ : Type u) where
  key : κ

/-- `d[k]` -/
def getItem (d : PyDict κ ν) (k : κ) : Except (KeyError κ) ν :=
  match d.get? k with
  | some v => .ok v
  | none => .error ⟨k⟩

/-- `k in d` -/
def contains (d : PyDict κ ν) (k : κ) : Bool := (d.get? k).isSome

/-- `d[k] = v` -/
def set (d : PyDict κ ν) (k : κ) (v : ν) : PyDict κ ν where
  items := put k v d.items
  nodup := by
    rw [map_fst_put]
    split_ifs with h
    · exact d.nodup
    · exact List.nodup_append.mpr ⟨d.nodup, List.nodup_singleton _, by
        intro a ha b hb
        rw [List.mem_singleton.mp hb]
        exact fun he => h (he ▸ ha)⟩

/-- `d.pop(k, None)` -/
def pop (d : PyDict κ ν) (k : κ) : PyDict κ ν where
  items := del k d.items
  nodup := d.nodup.sublist ((del_sublist k d.items).map _)

def keys (d : PyDict κ ν) : List κ := d.items.map Prod.fst

def values (d : PyDict κ ν) : List ν := d.items.map Prod.snd

/-- `len(d)` -/
def size (d : PyDict κ ν) : ℕ := d.items.length

@[simp] theorem get?_empty (k : κ) : (empty : PyDict κ ν).get? k = none := rfl

theorem get?_set (d : PyDict κ ν) (k k' : κ) (v : ν) :
    (d.set k v).get? k' = if k' = k then some v else d.get? k' := find_put k k' v d.items

@[simp] theorem get?_set_self (d : PyDict κ ν) (k : κ) (v : ν) : (d.set k v).get? k = some v := by
  rw [get?_set, if_pos rfl]

theorem set_of_get? {d : PyDict κ ν} {k : κ} {v : ν} (h : d.get? k = some v) : d.set k v = d := by
  cases d
  simp only [set, mk.injEq]
  exact put_of_find h

theorem keys_set (d : PyDict κ ν) (k : κ) (v : ν) :
    (d.set k v).keys = if k ∈ d.keys then d.keys else d.keys ++ [k] :=
  map_fst_put k v d.items

theorem get?_pop (d : PyDict κ ν) (k k' : κ) :
    (d.pop k).get? k' = if k' = k then none else d.get? k' := find_del k k' d.items d.nodup

theorem getItem_of_get? {d : PyDict κ ν} {k : κ} {v : ν} (h : d.get? k = some v) :
    d.getItem k = .ok v := by
  rw [getItem, h]

theorem get?_eq_some_iff (d : PyDict κ ν) (k : κ) (v : ν) :
    d.get? k = some v ↔ (k, v) ∈ d.items :=
  ⟨mem_of_find, find_of_mem d.nodup⟩

theorem get?_eq_none_iff (d : PyDict κ ν) (k : κ) : d.get? k = none ↔ k ∉ d.keys :=
  find_eq_none_iff

theorem contains_iff (d : PyDict κ ν) (k : κ) : d.contains k = true ↔ ∃ v, d.get? k = some v := by
  rw [contains, Option.isSome_iff_exists]

theorem contains_eq_false_iff (d : PyDict κ ν) (k : κ) :
    d.contains k = false ↔ d.get? k = none := by
  rw [contains, Option.isSome_eq_false_iff, Option.isNone_iff_eq_none]

theorem mem_keys_iff (d : PyDict κ ν) (k : κ) : k ∈ d.keys ↔ ∃ v, d.get? k = some v := by
  rw [← not_iff_not, ← get?_eq_none_iff, ← Option.not_isSome_iff_eq_none,
    Option.isSome_iff_exists]

theorem mem_values_iff (d : PyDict κ ν) (v : ν) : v ∈ d.values ↔ ∃ k, d.get? k = some v := by
  simp only [values, get?_eq_some_iff, List.mem_map, Prod.exists, exists_eq_right]

theorem items_set_of_get?_none {d : PyDict κ ν} {k : κ} (v : ν) (h : d.get? k = none) :
    (d.set k v).items = d.items ++ [(k, v)] := put_of_find_none v h

theorem items_perm_pop {d : PyDict κ ν} {k : κ} {v : ν} (h : d.get? k = some v) :
    d.items.Perm ((k, v) :: (d.pop k).items) := perm_del h

theorem perm_put (k : κ) (v : ν) (l : List (κ × ν)) : (put k v l).Perm ((k, v) :: del k l) := by
  induction l with
  | nil => exact List.Perm.refl _
  | cons p l ih =>
    by_cases hk : p.1 = k
    · simp [put, del, hk]
    · simp only [put, del, hk, if_false]
      exact (ih.cons p).trans (List.Perm.swap _ _ _)

theorem items_perm_set (d : PyDict κ ν) (k : κ) (v : ν) :
    (d.set k v).items.Perm ((k, v) :: (d.pop k).items) := perm_put k v d.items

theorem pop_items_of_get?_none {d : PyDict κ ν} {k : κ} (h : d.get? k = none) :
    (d.pop k).items = d.items := del_of_find_none h

theorem size_pop {d : PyDict κ ν} {k : κ} {v : ν} (h : d.get? k = some v) :
    (d.pop k).size + 1 = d.size := by
  rw [size, size, (items_perm_pop h).length_eq, List.length_cons]

/-- Assigning adds one entry at the most. -/
theorem size_set (d : PyDict κ ν) (k : κ) (v : ν) :
    (d.set k v).size = if d.contains k then d.size else d.size + 1 := by
  have hset : (d.set k v).size = (d.pop k).size + 1 := by
    rw [size, (d.items_perm_set k v).length_eq, List.length_cons, size]
  rw [hset]
  cases h : d.get? k with
  | some w => simp [contains, h, size_pop h]
  | none => simp [contains, h, size, pop_items_of_get?_none h]

theorem countP_values_pop {d : PyDict κ ν} {k : κ} {v : ν} (h : d.get? k = some v) (p : ν → Bool) :
    d.values.countP p = (d.pop k).values.countP p + if p v then 1 else 0 := by
  rw [values, ((items_perm_pop h).map Prod.snd).countP_eq, List.map_cons, List.countP_cons]
  rfl

/-- Assigning to a key whose value, if any, is not counted. -/
theorem countP_values_set {d : PyDict κ ν} {k : κ} {p : ν → Bool}
    (h : ∀ v, d.get? k = some v → p v = false) (v : ν) :
    (d.set k v).values.countP p = d.values.countP p + if p v then 1 else 0 := by
  have hpop : (d.pop k).values.countP p = d.values.countP p := by
    cases hk : d.get? k with
    | none => rw [values, values, pop_items_of_get?_none hk]
    | some w => simp [countP_values_pop hk, h w hk]
  rw [values, ((d.items_perm_set k v).map Prod.snd).countP_eq, List.map_cons, List.countP_cons,
    ← hpop]
  rfl

section Count

variable [DecidableEq ν]

theorem count_values_pop {d : PyDict κ ν} {k : κ} {v : ν} (h : d.get? k = some v) (w : ν) :
    d.values.count w = (d.pop k).values.count w + if w = v then 1 else 0 := by
  rw [values, ((items_perm_pop h).map Prod.snd).count_eq w, List.map_cons, List.count_cons]
  simp only [beq_iff_eq, @eq_comm _ v w, values]

theorem count_values_set (d : PyDict κ ν) (k : κ) (v w : ν) :
    (d.set k v).values.count w = (d.pop k).values.count w + if w = v then 1 else 0 := by
  rw [values, ((d.items_perm_set k v).map Prod.snd).count_eq w, List.map_cons, List.count_cons]
  simp only [beq_iff_eq, @eq_comm _ v w, values]

theorem count_values_pos {d : PyDict κ ν} {k : κ} {v : ν} (h : d.get? k = some v) :
    0 < d.values.count v := List.count_pos_iff.mpr ((d.mem_values_iff v).mpr ⟨k, h⟩)

/-- A value that occurs once is stored under one key only. -/
theorem key_eq_of_count_eq_one {d : PyDict κ ν} {k k' : κ} {v : ν} (h : d.get? k = some v)
    (h' : d.get? k' = some v) (hc : d.values.count v = 1) : k' = k := by
  by_contra hne
  have hp : (d.pop k).get? k' = some v := by rw [get?_pop, if_neg hne, h']
  have h1 := count_values_pos hp
  have h2 := count_values_pop h v
  rw [if_pos rfl] at h2
  omega

end Count

theorem filterMap_get?_keys (d : PyDict κ ν) : d.keys.filterMap d.get? = d.values := by
  rw [keys, values, List.filterMap_map, ← List.filterMap_eq_map]
  refine List.filterMap_congr fun p hp => ?_
  exact (d.get?_eq_some_iff p.1 p.2).mpr hp

/-- Dictionaries that agree on every key hold the same entries. -/
theorem items_perm_of_get?_eq {d e : PyDict κ ν} (h : ∀ k, d.get? k = e.get? k) :
    d.items.Perm e.items := by
  refine (List.perm_ext_iff_of_nodup d.nodup.of_map e.nodup.of_map).mpr ?_
  rintro ⟨k, v⟩
  rw [← get?_eq_some_iff, ← get?_eq_some_iff, h]

end PyDict
