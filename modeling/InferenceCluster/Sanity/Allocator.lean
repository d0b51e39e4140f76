import InferenceCluster.Spec.KvCache
import Mathlib.Tactic

/-! What each atomic section of the allocator keeps: the free list, the reference
counts, the prefix map and the outstanding handles stay tied together. `held b` counts
the outstanding handles on `b`; a section is described by how it changes that count. -/

namespace InferenceCluster
namespace BlockAllocator

variable {cfg : BlockConfig} {α : Type}

structure Valid (a : BlockAllocator cfg α) (held : BlockId cfg → ℕ) : Prop where
  nodup : a.freeList.Nodup
  free_iff : ∀ b, b ∈ a.freeList ↔ (a.pool b).refCount = 0
  count : ∀ b, (a.pool b).refCount = held b
  prefix_iff : ∀ h b, a.prefixCache.get? h = some b ↔ (a.pool b).prefixHash = some h
  registered : ∀ h b, a.prefixCache.get? h = some b → 1 ≤ (a.pool b).refCount

@[simp] theorem setBlock_pool (a : BlockAllocator cfg α) (b c : BlockId cfg)
    (block : PhysicalBlock cfg α) :
    (a.setBlock b block).pool c = if c = b then block else a.pool c := by
  simp only [setBlock, Function.update_apply]

@[simp] theorem setBlock_freeList (a : BlockAllocator cfg α) (b : BlockId cfg)
    (block : PhysicalBlock cfg α) : (a.setBlock b block).freeList = a.freeList := rfl

@[simp] theorem setBlock_prefixCache (a : BlockAllocator cfg α) (b : BlockId cfg)
    (block : PhysicalBlock cfg α) : (a.setBlock b block).prefixCache = a.prefixCache := rfl

theorem valid_init (cfg : BlockConfig) (α : Type) [Zero α] :
    (init cfg α).Valid fun _ => 0 :=
  ⟨List.nodup_finRange _, fun b => by simp [init], fun b => rfl, fun h b => by simp [init],
    fun h b hb => by simp [init] at hb⟩

/-- A free block is registered under no hash. -/
theorem Valid.prefixHash_of_free {a : BlockAllocator cfg α} {held : BlockId cfg → ℕ}
    (v : a.Valid held) {b : BlockId cfg} (hb : b ∈ a.freeList) : (a.pool b).prefixHash = none := by
  by_contra hne
  obtain ⟨h, hh⟩ := Option.ne_none_iff_exists'.mp hne
  have h1 := v.registered h b ((v.prefix_iff h b).mpr hh)
  rw [(v.free_iff b).mp hb] at h1
  exact absurd h1 (by norm_num)

theorem Valid.held_of_free {a : BlockAllocator cfg α} {held : BlockId cfg → ℕ}
    (v : a.Valid held) (b : BlockId cfg) : held b = 0 ↔ b ∈ a.freeList := by
  rw [v.free_iff, v.count]
  exact Int.natCast_eq_zero.symm

/-! ### Taking a block from the free list -/

theorem popFree_error {a a' : BlockAllocator cfg α} {msg : String} {h : Option ℤ} {e : MemoryError}
    (hp : popFree msg h a = .error e a') : a.freeList = [] ∧ a' = a := by
  unfold popFree at hp
  split at hp
  · rename_i hl
    rw [List.getLast?_eq_none_iff] at hl
    injection hp with _ ha
    exact ⟨hl, ha.symm⟩
  · cases hp

theorem popFree_ok {a a' : BlockAllocator cfg α} {msg : String} {h : Option ℤ} {b : BlockId cfg}
    (hp : popFree msg h a = .ok b a') :
    ∃ rest, a.freeList = rest ++ [b] ∧
      a' = { a.setBlock b { a.pool b with refCount := 1, prefixHash := h } with
        freeList := rest } := by
  unfold popFree at hp
  split at hp
  · cases hp
  · rename_i c hl
    obtain ⟨rest, hr⟩ := List.getLast?_eq_some_iff.mp hl
    injection hp with hb ha
    subst hb ha
    exact ⟨rest, hr, by simp [hr]⟩

/-- A block leaves the free list with one reference. It may be registered under a hash. -/
theorem Valid.take {a : BlockAllocator cfg α} {held held' : BlockId cfg → ℕ} (v : a.Valid held)
    {rest : List (BlockId cfg)} {b : BlockId cfg} (hr : a.freeList = rest ++ [b])
    {block : PhysicalBlock cfg α} (h1 : block.refCount = 1) {pc : PyDict ℤ (BlockId cfg)}
    (hpc : ∀ h c, pc.get? h = some c ↔
      if c = b then block.prefixHash = some h else a.prefixCache.get? h = some c)
    (hh : ∀ c, held' c = held c + if c = b then 1 else 0) :
    Valid ⟨(a.setBlock b block).pool, rest, pc⟩ held' := by
  have hn := v.nodup
  rw [hr, List.nodup_append] at hn
  have hb : b ∉ rest := fun hm => hn.2.2 b hm b (List.mem_singleton_self b) rfl
  have h0 : held b = 0 := (v.held_of_free b).mpr (by simp [hr])
  refine ⟨hn.1, fun c => ?_, fun c => ?_, fun h c => ?_, fun h c hc => ?_⟩
  · have hc := v.free_iff c
    rw [hr, List.mem_append, List.mem_singleton] at hc
    simp only [setBlock_pool]
    split_ifs with hcb
    · simp [hcb, hb, h1]
    · rw [← hc, or_iff_left hcb]
  · simp only [setBlock_pool]
    split_ifs with hcb
    · simp [hh, hcb, h0, h1]
    · simp [hh, hcb, v.count]
  · rw [hpc, setBlock_pool]
    split_ifs with hcb
    · exact Iff.rfl
    · exact v.prefix_iff h c
  · rw [hpc] at hc
    simp only [setBlock_pool]
    split_ifs at hc ⊢ with hcb
    · exact h1.ge
    · exact v.registered h c hc

theorem Valid.popFree {a a' : BlockAllocator cfg α} {held held' : BlockId cfg → ℕ}
    (v : a.Valid held) {msg : String} {b : BlockId cfg} (hp : popFree msg none a = .ok b a')
    (hh : ∀ c, held' c = held c + if c = b then 1 else 0) : a'.Valid held' := by
  obtain ⟨rest, hr, rfl⟩ := popFree_ok hp
  refine v.take hr rfl (fun h c => ?_) hh
  simp only [setBlock_prefixCache]
  split_ifs with hcb
  · subst hcb
    rw [v.prefix_iff, v.prefixHash_of_free (by simp [hr])]
    simp
  · exact Iff.rfl

/-! ### Changing the count of a block in use -/

theorem Valid.recount {a : BlockAllocator cfg α} {held held' : BlockId cfg → ℕ} (v : a.Valid held)
    {b : BlockId cfg} {block : PhysicalBlock cfg α} (hb : 0 < held b) (hb' : 0 < held' b)
    (hc : block.refCount = held' b) (hp : block.prefixHash = (a.pool b).prefixHash)
    (hh : ∀ c, c ≠ b → held' c = held c) : (a.setBlock b block).Valid held' := by
  refine ⟨v.nodup, fun c => ?_, fun c => ?_, fun h c => ?_, fun h c hg => ?_⟩
  · rw [setBlock_freeList, setBlock_pool, v.free_iff]
    split_ifs with hcb
    · rw [hcb, v.count, hc]
      omega
    · exact Iff.rfl
  · rw [setBlock_pool]
    split_ifs with hcb
    · rw [hcb, hc]
    · rw [v.count, hh c hcb]
  · rw [setBlock_prefixCache, setBlock_pool, v.prefix_iff]
    split_ifs with hcb
    · rw [hcb, hp]
    · exact Iff.rfl
  · have h1 := v.registered h c hg
    rw [setBlock_pool]
    split_ifs with hcb
    · rw [hc]
      omega
    · exact h1

/-- The last reference goes: the block is unregistered and free again. -/
theorem Valid.release {a : BlockAllocator cfg α} {held held' : BlockId cfg → ℕ} (v : a.Valid held)
    {b : BlockId cfg} {block : PhysicalBlock cfg α} (hb : held b = 1) (hb' : held' b = 0)
    (h0 : block.refCount = 0) (hp : block.prefixHash = none) {pc : PyDict ℤ (BlockId cfg)}
    (hpc : ∀ h c, pc.get? h = some c ↔ c ≠ b ∧ a.prefixCache.get? h = some c)
    (hh : ∀ c, c ≠ b → held' c = held c) :
    Valid ⟨(a.setBlock b block).pool, a.freeList ++ [b], pc⟩ held' := by
  have hfree : b ∉ a.freeList := by
    rw [← v.held_of_free, hb]
    exact one_ne_zero
  refine ⟨?_, fun c => ?_, fun c => ?_, fun h c => ?_, fun h c hg => ?_⟩
  · refine List.nodup_append.mpr ⟨v.nodup, List.nodup_singleton b, fun c hc d hd => ?_⟩
    rw [List.mem_singleton.mp hd]
    exact fun hcb => hfree (hcb ▸ hc)
  · rw [List.mem_append, List.mem_singleton, setBlock_pool, v.free_iff]
    split_ifs with hcb
    · simp [hcb, h0]
    · rw [or_iff_left hcb]
  · rw [setBlock_pool]
    split_ifs with hcb
    · rw [hcb, h0, hb', Nat.cast_zero]
    · rw [v.count, hh c hcb]
  · rw [hpc, setBlock_pool, v.prefix_iff]
    split_ifs with hcb
    · simp [hcb, hp]
    · rw [and_iff_right hcb]
  · rw [hpc] at hg
    rw [setBlock_pool, if_neg hg.1]
    exact v.registered h c hg.2

theorem Valid.decRef {a : BlockAllocator cfg α} {held held' : BlockId cfg → ℕ} (v : a.Valid held)
    {b : BlockId cfg} (hh : ∀ c, held c = held' c + if c = b then 1 else 0) :
    (a.decRef b).Valid held' := by
  have hb : held b = held' b + 1 := by rw [hh, if_pos rfl]
  have hne : ∀ c, c ≠ b → held' c = held c := fun c hc => by rw [hh, if_neg hc, Nat.add_zero]
  have hcount := v.count b
  unfold BlockAllocator.decRef
  simp only
  split_ifs with h0
  · have hb1 : held b = 1 := by omega
    have hb0 : held' b = 0 := by omega
    cases hp : (a.pool b).prefixHash with
    | none =>
      refine v.release hb1 hb0 ?_ rfl (fun h c => ?_) hne
      · exact h0
      · simp only [setBlock_prefixCache, v.prefix_iff]
        constructor
        · intro hc
          refine ⟨fun hcb => ?_, hc⟩
          rw [hcb, hp] at hc
          cases hc
        · exact And.right
    | some h =>
      refine v.release hb1 hb0 ?_ rfl (fun h' c => ?_) hne
      · exact h0
      · simp only [PyDict.get?_pop]
        split_ifs with hh'
        · rw [hh', (v.prefix_iff h b).mpr hp]
          simp [eq_comm]
        · rw [v.prefix_iff]
          constructor
          · intro hc
            refine ⟨fun hcb => ?_, hc⟩
            rw [hcb, hp] at hc
            exact hh' (Option.some.inj hc).symm
          · exact And.right
  · refine v.recount (by omega) (by omega) ?_ rfl hne
    simp only
    omega

/-! ### The operations -/

theorem Valid.allocate {a a' : BlockAllocator cfg α} {held held' : BlockId cfg → ℕ}
    (v : a.Valid held) {b : BlockId cfg} (hp : allocate a = .ok b a')
    (hh : ∀ c, held' c = held c + if c = b then 1 else 0) : a'.Valid held' := v.popFree hp hh

theorem Valid.getOrCreatePrefixBlock {a a' : BlockAllocator cfg α} {held held' : BlockId cfg → ℕ}
    (v : a.Valid held) {h : ℤ} {b : BlockId cfg} {hit : Bool}
    (hp : getOrCreatePrefixBlock h a = .ok (b, hit) a')
    (hh : ∀ c, held' c = held c + if c = b then 1 else 0) : a'.Valid held' := by
  unfold BlockAllocator.getOrCreatePrefixBlock at hp
  split at hp
  · rename_i c hget
    injection hp with hbc ha
    obtain ⟨rfl, -⟩ := Prod.mk.inj hbc
    subst ha
    have h1 := v.registered h c hget
    have hcount := v.count c
    have hc : held' c = held c + 1 := by rw [hh, if_pos rfl]
    refine v.recount (by omega) (by omega) ?_ rfl fun d hd => by rw [hh, if_neg hd, Nat.add_zero]
    simp only
    omega
  · rename_i hget
    split at hp
    · rename_i c a₁ hpop
      injection hp with hbc ha
      obtain ⟨rfl, -⟩ := Prod.mk.inj hbc
      subst ha
      obtain ⟨rest, hr, rfl⟩ := popFree_ok hpop
      refine v.take hr rfl (fun h' d => ?_) hh
      simp only [setBlock_prefixCache, PyDict.get?_set]
      split_ifs with hh' hdc hdc
      · simp [hh', hdc]
      · subst hh'
        simp [hget, Ne.symm hdc]
      · subst hdc
        simp only [v.prefix_iff, v.prefixHash_of_free (show d ∈ a.freeList by simp [hr]),
          Option.some.injEq, Ne.symm hh']
        simp
      · exact Iff.rfl
    · cases hp

theorem getOrCreatePrefixBlock_error {a a' : BlockAllocator cfg α} {h : ℤ} {e : MemoryError}
    (hp : getOrCreatePrefixBlock h a = .error e a') :
    a.prefixCache.get? h = none ∧ a.freeList = [] ∧ a' = a := by
  unfold getOrCreatePrefixBlock at hp
  split at hp
  · cases hp
  · rename_i hget
    split at hp
    · cases hp
    · rename_i e' a₁ hpop
      injection hp with _ ha
      obtain ⟨hf, h₁⟩ := popFree_error hpop
      exact ⟨hget, hf, ha.symm.trans h₁⟩

theorem Valid.cowCopy {a : BlockAllocator cfg α} {held : BlockId cfg → ℕ} (v : a.Valid held)
    {new old : BlockId cfg} (hn : 0 < held new) : (a.cowCopy new old).Valid held :=
  v.recount hn hn (v.count new) rfl fun _ _ => rfl

end BlockAllocator
end InferenceCluster
