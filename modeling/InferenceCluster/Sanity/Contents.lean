import InferenceCluster.Sanity.Allocator

/-! What the sections of the allocator do to the contents of the blocks, and what one
uninterrupted `copy_on_write` amounts to. -/

namespace InferenceCluster
namespace BlockAllocator

variable {cfg : BlockConfig} {α : Type}

/-- An update of a block's count and hash leaves every content as it was. -/
theorem recount_contents (a : BlockAllocator cfg α) (b : BlockId cfg) (n : ℤ) (h : Option ℤ)
    (c : BlockId cfg) :
    ((a.setBlock b { a.pool b with refCount := n, prefixHash := h }).pool c).contents =
      (a.pool c).contents := by
  rw [setBlock_pool]
  split_ifs with hc
  · rw [hc]
    rfl
  · rfl

theorem popFree_contents {a a' : BlockAllocator cfg α} {msg : String} {h : Option ℤ}
    {b : BlockId cfg} (hp : popFree msg h a = .ok b a') (c : BlockId cfg) :
    (a'.pool c).contents = (a.pool c).contents := by
  obtain ⟨rest, -, rfl⟩ := popFree_ok hp
  exact a.recount_contents b 1 h c

theorem getOrCreatePrefixBlock_contents {a a' : BlockAllocator cfg α} {h : ℤ} {b : BlockId cfg}
    {hit : Bool} (hp : getOrCreatePrefixBlock h a = .ok (b, hit) a') (c : BlockId cfg) :
    (a'.pool c).contents = (a.pool c).contents := by
  unfold getOrCreatePrefixBlock at hp
  split at hp
  · injection hp with _ ha
    rw [← ha]
    exact a.recount_contents _ _ _ c
  · split at hp
    · rename_i hpop
      injection hp with _ ha
      rw [← ha]
      exact popFree_contents hpop c
    · cases hp

/-- The registered block, or on a miss the last free one. -/
theorem getOrCreatePrefixBlock_source {a a' : BlockAllocator cfg α} {h : ℤ} {b : BlockId cfg}
    {hit : Bool} (hp : getOrCreatePrefixBlock h a = .ok (b, hit) a') :
    (a.prefixCache.get? h).or a.freeList.getLast? = some b := by
  unfold getOrCreatePrefixBlock at hp
  split at hp
  · rename_i hget
    injection hp with hb _
    rw [hget, Option.some_or, (Prod.mk.inj hb).1]
  · rename_i hget
    split at hp
    · rename_i hpop
      injection hp with hb _
      obtain ⟨rest, hr, -⟩ := popFree_ok hpop
      rw [hget, Option.none_or, hr, List.getLast?_concat, (Prod.mk.inj hb).1]
    · cases hp

theorem decRef_contents (a : BlockAllocator cfg α) (b c : BlockId cfg) :
    ((a.decRef b).pool c).contents = (a.pool c).contents := by
  unfold decRef
  simp only
  split_ifs with h0
  · cases (a.pool b).prefixHash with
    | none => exact a.recount_contents b _ none c
    | some h => exact a.recount_contents b _ none c
  · exact a.recount_contents b _ _ c

theorem cowCopy_contents (a : BlockAllocator cfg α) (new old c : BlockId cfg) :
    ((a.cowCopy new old).pool c).contents =
      if c = new then (a.pool old).contents else (a.pool c).contents := by
  rw [cowCopy, setBlock_pool]
  split_ifs <;> rfl

theorem overwrite_contents (a : BlockAllocator cfg α) (b c : BlockId cfg)
    (w : Contents cfg α → Contents cfg α) :
    ((a.overwrite b w).pool c).contents =
      if c = b then w (a.pool b).contents else (a.pool c).contents := by
  rw [overwrite, setBlock_pool]
  split_ifs <;> rfl

theorem Valid.overwrite {a : BlockAllocator cfg α} {held : BlockId cfg → ℕ} (v : a.Valid held)
    {b : BlockId cfg} (hb : 0 < held b) (w : Contents cfg α → Contents cfg α) :
    (a.overwrite b w).Valid held :=
  v.recount hb hb (v.count b) rfl fun _ _ => rfl

/-! ### `copy_on_write` without interruption -/

theorem copyOnWrite_eq (b : BlockId cfg) (a : BlockAllocator cfg α) : copyOnWrite b a =
    if a.notShared b then .ok b a
    else match cowPop a with
      | .ok new a₁ => .ok new ((a₁.cowCopy new b).decRef b)
      | .error e a₁ => .error e a₁ := by
  change (copyOnWrite b).run a = _
  unfold copyOnWrite
  rw [EStateM.run_bind, EStateM.run_get]
  split_ifs with hs
  · simp only [hs, if_true, EStateM.run_pure]
  · simp only [hs, if_false, Bool.false_eq_true, EStateM.run_bind, EStateM.run_modify,
      EStateM.run_pure]
    rcases hp : cowPop a with ⟨new, a₁⟩ | ⟨e, a₁⟩ <;> simp only [EStateM.run, hp]

theorem copyOnWrite_ok {a a' : BlockAllocator cfg α} {b new : BlockId cfg}
    (h : copyOnWrite b a = .ok new a') :
    (a.notShared b = true ∧ new = b ∧ a' = a) ∨
      a.notShared b = false ∧ ∃ a₁, cowPop a = .ok new a₁ ∧ a' = (a₁.cowCopy new b).decRef b := by
  rw [copyOnWrite_eq] at h
  split_ifs at h with hs
  · injection h with hb ha
    exact .inl ⟨hs, hb.symm, ha.symm⟩
  · cases hp : cowPop a with
    | ok c a₁ =>
      rw [hp] at h
      injection h with hc ha
      subst hc
      exact .inr ⟨Bool.eq_false_of_not_eq_true hs, a₁, rfl, ha.symm⟩
    | error e a₁ =>
      rw [hp] at h
      cases h

theorem copyOnWrite_error {a a' : BlockAllocator cfg α} {b : BlockId cfg} {e : MemoryError}
    (h : copyOnWrite b a = .error e a') :
    a.notShared b = false ∧ a.freeList = [] ∧ a' = a := by
  rw [copyOnWrite_eq] at h
  split_ifs at h with hs
  cases hp : cowPop a with
  | ok c a₁ =>
    rw [hp] at h
    cases h
  | error e' a₁ =>
    rw [hp] at h
    obtain ⟨hf, rfl⟩ := popFree_error hp
    injection h with _ ha
    exact ⟨Bool.eq_false_of_not_eq_true hs, hf, ha.symm⟩

end BlockAllocator
end InferenceCluster
