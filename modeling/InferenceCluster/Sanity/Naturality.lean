import InferenceCluster.Sanity.Ownership

/-! The cache never looks at the vectors it holds: a map of the elements commutes with every
call. -/

namespace InferenceCluster

variable {cfg : BlockConfig} {α β : Type} (f : α → β)

def Slab.map (slab : Slab cfg α) : Slab cfg β := fun layer head slot d => f (slab layer head slot d)

def PhysicalBlock.map (block : PhysicalBlock cfg α) : PhysicalBlock cfg β :=
  ⟨block.refCount, block.prefixHash, block.k.map f, block.v.map f⟩

def CacheOp.map : CacheOp cfg α → CacheOp cfg β
  | .createSequence seqId => .createSequence seqId
  | .appendTokenKv seqId layer head k v => .appendTokenKv seqId layer head (f ∘ k) (f ∘ v)
  | .incrementTokenCount seqId => .incrementTokenCount seqId
  | .freeSequence seqId => .freeSequence seqId
  | .flush => .flush

theorem Slab.map_put (slab : Slab cfg α) (layer : Fin cfg.numLayers) (head : Fin cfg.numHeads)
    (slot : ℕ) (vec : Vec cfg α) :
    (slab.put layer head slot vec).map f = (slab.map f).put layer head slot (f ∘ vec) := by
  funext l h s d
  simp only [Slab.map, Slab.put]
  split_ifs <;> rfl

namespace BlockAllocator

def map (a : BlockAllocator cfg α) : BlockAllocator cfg β :=
  ⟨fun b => (a.pool b).map f, a.freeList, a.prefixCache⟩

theorem map_setBlock (a : BlockAllocator cfg α) (b : BlockId cfg) (block : PhysicalBlock cfg α) :
    (a.setBlock b block).map f = (a.map f).setBlock b (block.map f) := by
  simp only [map, setBlock, mk.injEq, and_true]
  funext c
  simp only [Function.update_apply]
  split_ifs <;> rfl

/-- Only the pool changes under a map. -/
theorem map_mk (a : BlockAllocator cfg α) (free : List (BlockId cfg)) (pc : PyDict ℤ (BlockId cfg)) :
    map f ⟨a.pool, free, pc⟩ = ⟨(a.map f).pool, free, pc⟩ := rfl

theorem map_popFree {a a' : BlockAllocator cfg α} {msg : String} {h : Option ℤ} {b : BlockId cfg}
    (hp : popFree msg h a = .ok b a') : popFree msg h (a.map f) = .ok b (a'.map f) := by
  obtain ⟨rest, hr, rfl⟩ := popFree_ok hp
  have hl : (a.map f).freeList.getLast? = some b := by
    rw [show (a.map f).freeList = rest ++ [b] from hr, List.getLast?_concat]
  have hd : (a.map f).freeList.dropLast = rest := by
    rw [show (a.map f).freeList = rest ++ [b] from hr, List.dropLast_concat]
  unfold popFree
  rw [hl, hd]
  simp only [map_mk, map_setBlock]
  rfl

theorem map_decRef (a : BlockAllocator cfg α) (b : BlockId cfg) :
    (a.decRef b).map f = (a.map f).decRef b := by
  unfold decRef
  simp only [show ((a.map f).pool b).refCount = (a.pool b).refCount from rfl,
    show ((a.map f).pool b).prefixHash = (a.pool b).prefixHash from rfl]
  split_ifs
  · cases (a.pool b).prefixHash with
    | none =>
      simp only [map_mk, map_setBlock]
      rfl
    | some h =>
      simp only [map_mk, map_setBlock]
      rfl
  · rw [map_setBlock]
    rfl

end BlockAllocator

namespace CacheState

def map (st : CacheState cfg α) : CacheState cfg β := ⟨st.allocator.map f, st.seq⟩

theorem map_writeSlot (st : CacheState cfg α) (b : BlockId cfg) (layer : Fin cfg.numLayers)
    (head : Fin cfg.numHeads) (slot : ℕ) (k v : Vec cfg α) :
    (st.writeSlot b layer head slot k v).map f =
      (st.map f).writeSlot b layer head slot (f ∘ k) (f ∘ v) := by
  simp only [map, writeSlot, BlockAllocator.overwrite, BlockAllocator.map_setBlock]
  simp only [PhysicalBlock.map, Slab.map_put]
  rfl

theorem OwnedBeside.map {st : CacheState cfg α} {rest : List (BlockId cfg)}
    (h : st.OwnedBeside rest) : (st.map f).OwnedBeside rest :=
  ⟨⟨h.valid.nodup, h.valid.free_iff, h.valid.count, h.valid.prefix_iff, h.valid.registered⟩, h.nodup⟩

/-- An append raises under a map if it raises, and writes to the same place if it does not. -/
theorem map_appendTokenKv {st : CacheState cfg α} {rest : List (BlockId cfg)}
    (h : st.OwnedBeside rest) (layer : Fin cfg.numLayers) (head : Fin cfg.numHeads)
    (k v : Vec cfg α) :
    (∃ e e', appendTokenKv layer head k v st = .error e st ∧
      appendTokenKv layer head (f ∘ k) (f ∘ v) (st.map f) = .error e' (st.map f)) ∨
    ∃ st', appendTokenKv layer head k v st = .ok () st' ∧
      appendTokenKv layer head (f ∘ k) (f ∘ v) (st.map f) = .ok () (st'.map f) := by
  -- both calls test the same flag and pop from the same free list
  rcases appendTokenKv_cases h layer head k v with
    ⟨hf, hfree, e, he⟩ | ⟨hf, b, a, hp, ha⟩ | ⟨hf, init, b, ht, ha⟩ <;>
  rcases appendTokenKv_cases (h.map f) layer head (f ∘ k) (f ∘ v) with
    ⟨hf', hfree', e', he'⟩ | ⟨hf', b', a', hp', ha'⟩ | ⟨hf', init', b', ht', ha'⟩
  · exact .inl ⟨e, e', he, he'⟩
  · obtain ⟨free, hr, -⟩ := BlockAllocator.popFree_ok hp'
    exact absurd (hfree.symm.trans hr) (by simp)
  · exact absurd (hf.symm.trans hf') (by simp)
  · obtain ⟨free, hr, -⟩ := BlockAllocator.popFree_ok hp
    exact absurd (hr.symm.trans hfree') (by simp)
  · have hmap : BlockAllocator.allocate (st.map f).allocator = .ok b (a.map f) :=
      BlockAllocator.map_popFree f hp
    obtain ⟨rfl, rfl⟩ := EStateM.Result.ok.inj (hmap.symm.trans hp')
    refine .inr ⟨_, ha _ rfl, ?_⟩
    rw [ha' _ rfl, map_writeSlot]
    rfl
  · exact absurd (hf.symm.trans hf') (by simp)
  · exact absurd (hf.symm.trans hf') (by simp)
  · exact absurd (hf.symm.trans hf') (by simp)
  · have hb : b = b' := by
      have hlast := congrArg List.getLast? (ht.symm.trans ht')
      simpa using hlast
    subst hb
    refine .inr ⟨_, ha, ?_⟩
    rw [ha', map_writeSlot]
    rfl

theorem map_free (st : CacheState cfg α) : st.free.map f = (st.map f).free := by
  have hfold : ∀ (table : List (BlockId cfg)) (a : BlockAllocator cfg α),
      (table.foldl BlockAllocator.decRef a).map f = table.foldl BlockAllocator.decRef (a.map f) := by
    intro table
    induction table with
    | nil => exact fun _ => rfl
    | cons b table ih =>
      intro a
      rw [List.foldl_cons, ih, a.map_decRef f b]
      rfl
  exact congrArg (fun a => (⟨a, st.free.seq⟩ : CacheState cfg β)) (hfold _ _)

end CacheState

namespace CacheManager

def map (s : CacheManager cfg α) : CacheManager cfg β := ⟨s.allocator.map f, s.sequences⟩

theorem map_freeSequence (s : CacheManager cfg α) (seqId : String) :
    (s.freeSequence seqId).map f = (s.map f).freeSequence seqId := by
  unfold freeSequence
  rw [show (s.map f).sequences.get? seqId = s.sequences.get? seqId from rfl]
  cases s.sequences.get? seqId with
  | none => rfl
  | some seq =>
    have hfree := CacheState.map_free f ⟨s.allocator, seq⟩
    exact congrArg (fun st : CacheState cfg β =>
      (⟨st.allocator, s.sequences.pop seqId⟩ : CacheManager cfg β)) hfree

theorem map_flush (s : CacheManager cfg α) : s.flush.map f = (s.map f).flush := by
  have hfold : ∀ (keys : List String) (s : CacheManager cfg α),
      (keys.foldl freeSequence s).map f = keys.foldl freeSequence (s.map f) := by
    intro keys
    induction keys with
    | nil => exact fun _ => rfl
    | cons k keys ih => exact fun s => (ih _).trans (by rw [map_freeSequence]; rfl)
  exact hfold s.sequences.keys s

theorem Owned.map_step {s : CacheManager cfg α} (h : s.Owned) (op : CacheOp cfg α) :
    (s.map f).step (op.map f) = (s.step op).map (CacheManager.map f) := by
  cases op with
  | createSequence seqId =>
    simp only [CacheOp.map, CacheManager.step, createSequence]
    rw [show (s.map f).sequences.contains seqId = s.sequences.contains seqId from rfl]
    split_ifs <;> rfl
  | appendTokenKv seqId layer head k v =>
    simp only [CacheOp.map, CacheManager.step]
    rw [show (s.map f).sequences.get? seqId = s.sequences.get? seqId from rfl]
    cases hg : s.sequences.get? seqId with
    | none => rfl
    | some seq =>
      have hmap : (CacheState.map f ⟨s.allocator, seq⟩) = ⟨(s.map f).allocator, seq⟩ := rfl
      rcases CacheState.map_appendTokenKv f (h.beside hg) layer head k v with
        ⟨e, e', he, he'⟩ | ⟨st', hs, hs'⟩
      · rw [hmap] at he'
        simp only [Option.map_some, he, he']
        rfl
      · rw [hmap] at hs'
        simp only [Option.map_some, hs, hs']
        rfl
  | incrementTokenCount seqId =>
    simp only [CacheOp.map, CacheManager.step, Option.map_map]
    rfl
  | freeSequence seqId => exact congrArg some (s.map_freeSequence f seqId).symm
  | flush => exact congrArg some (s.map_flush f).symm

/-- Runs over one type of elements are the runs over the other. -/
theorem run_map [Zero α] [Zero β] (h₀ : f 0 = 0) {ops : List (CacheOp cfg α)}
    {t : CacheManager cfg β} :
    (machine cfg β).Run (ops.map (CacheOp.map f)) t ↔
      ∃ s, (machine cfg α).Run ops s ∧ s.map f = t := by
  have hzero : Slab.map f (fun _ _ _ _ => 0 : Slab cfg α) = fun _ _ _ _ => 0 := by
    funext layer head slot d
    exact h₀
  have hinit : (init cfg α).map f = init cfg β := by
    simp only [init, map, BlockAllocator.init, BlockAllocator.map, PhysicalBlock.map, hzero]
  constructor
  · intro h
    generalize hops : ops.map (CacheOp.map f) = ops' at h
    induction h generalizing ops with
    | nil =>
      obtain rfl := List.map_eq_nil_iff.mp hops
      exact ⟨_, Machine.Run.nil, hinit⟩
    | @snoc ops' t op' t' _ hs ih =>
      obtain ⟨ops₀, last, rfl, hops₀, hlast⟩ := List.map_eq_append_iff.mp hops
      obtain ⟨op, rfl, rfl⟩ := List.map_eq_singleton_iff.mp hlast
      obtain ⟨s, hr, rfl⟩ := ih hops₀
      have hstep := (owned_of_reachable ⟨_, hr⟩).map_step f op
      obtain ⟨s', hs', rfl⟩ := Option.map_eq_some_iff.mp (hstep.symm.trans hs)
      exact ⟨s', hr.snoc hs', rfl⟩
  · rintro ⟨s, h, rfl⟩
    induction h with
    | nil => exact hinit ▸ Machine.Run.nil
    | @snoc ops s op s' hr hs ih =>
      rw [List.map_append, List.map_singleton]
      refine ih.snoc (((owned_of_reachable ⟨_, hr⟩).map_step f op).trans ?_)
      rw [show s.step op = some s' from hs, Option.map_some]

end CacheManager
end InferenceCluster
