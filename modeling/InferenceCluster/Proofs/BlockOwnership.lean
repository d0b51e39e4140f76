import InferenceCluster.Sanity.Ownership

/-! The partition of the pool: in every run of a cache manager each block is free, or in
the table of one active sequence, and a flush makes all of them free. -/

namespace InferenceCluster
namespace CacheManager

variable {cfg : BlockConfig} {α : Type}

/-- A block is in the free list, once, or in one table, once. -/
structure OwnedOnce (s : CacheManager cfg α) (b : BlockId cfg) : Prop where
  once : s.allocator.freeList.count b + (s.sequences.values.map fun seq =>
    seq.blockTable.count b).sum = 1
  unique : ∀ k k' seq seq', s.sequences.get? k = some seq → s.sequences.get? k' = some seq' →
    b ∈ seq.blockTable → b ∈ seq'.blockTable → k = k'

theorem count_tables (sequences : PyDict String (SequenceCache cfg)) (b : BlockId cfg) :
    (tables sequences).count b = (sequences.values.map fun seq => seq.blockTable.count b).sum := by
  rw [tables, List.count_flatMap]
  rfl

/-- A block of a table is in no other table. -/
theorem Owned.key_eq {s : CacheManager cfg α} (h : s.Owned) {k k' : String}
    {seq seq' : SequenceCache cfg} (hg : s.sequences.get? k = some seq)
    (hg' : s.sequences.get? k' = some seq') {b : BlockId cfg} (hb : b ∈ seq.blockTable)
    (hb' : b ∈ seq'.blockTable) : k = k' := by
  by_contra hne
  have hpop : (s.sequences.pop k).get? k' = some seq' := by
    rw [PyDict.get?_pop, if_neg (Ne.symm hne), hg']
  exact List.disjoint_of_nodup_append (h.beside hg).nodup hb (mem_tables hpop hb')

theorem Owned.ownedOnce {s : CacheManager cfg α} (h : s.Owned) (b : BlockId cfg) :
    s.OwnedOnce b := by
  refine ⟨?_, fun k k' seq seq' hg hg' hb hb' => h.key_eq hg hg' hb hb'⟩
  rw [← count_tables]
  by_cases hb : b ∈ s.allocator.freeList
  · rw [List.count_eq_one_of_mem h.valid.nodup hb, (h.valid.held_of_free b).mpr hb]
  · have hpos : (tables s.sequences).count b ≠ 0 := fun h0 => hb ((h.valid.held_of_free b).mp h0)
    rw [List.count_eq_zero_of_not_mem hb,
      List.count_eq_one_of_mem h.nodup (List.count_pos_iff.mp (Nat.pos_of_ne_zero hpos))]

/-- Free blocks and the blocks of the tables make up the pool. -/
theorem Owned.perm {s : CacheManager cfg α} (h : s.Owned) :
    (s.allocator.freeList ++ tables s.sequences).Perm (List.finRange cfg.numBlocks) := by
  refine List.perm_iff_count.mpr fun b => ?_
  rw [List.count_append, count_tables, (h.ownedOnce b).once,
    List.count_eq_one_of_mem (List.nodup_finRange _) (List.mem_finRange b)]

theorem Owned.usedBlocks {s : CacheManager cfg α} (h : s.Owned) :
    s.allocator.usedBlocks = (s.sequences.values.map SequenceCache.blocksUsed).sum := by
  have hlen := h.perm.length_eq
  rw [List.length_append, List.length_finRange, tables, List.length_flatMap] at hlen
  rw [BlockAllocator.usedBlocks, ← hlen, Nat.add_sub_cancel_left]
  rfl

theorem tables_flush (s : CacheManager cfg α) : tables s.flush.sequences = [] := by
  refine List.eq_nil_iff_forall_not_mem.mpr fun b hb => ?_
  obtain ⟨seq, hseq, -⟩ := List.mem_flatMap.mp hb
  obtain ⟨k, hk⟩ := (PyDict.mem_values_iff _ _).mp hseq
  rw [get?_flush] at hk
  cases hk

/-- Whatever was created, appended to, freed and flushed, and whichever calls raised. -/
theorem block_ownership [Zero α] {ops : List (CacheOp cfg α)} {s : CacheManager cfg α}
    (h : (machine cfg α).Run ops s) :
    (∀ b, s.OwnedOnce b) ∧
    s.allocator.usedBlocks = (s.sequences.values.map SequenceCache.blocksUsed).sum ∧
    s.flush.allocator.usedBlocks = 0 ∧
    s.flush.allocator.freeList.Perm (List.finRange cfg.numBlocks) := by
  have ho := owned_of_reachable ⟨ops, h⟩
  have hperm := ho.flush.perm
  rw [tables_flush, List.append_nil] at hperm
  refine ⟨ho.ownedOnce, ho.usedBlocks, ?_, hperm⟩
  rw [BlockAllocator.usedBlocks, hperm.length_eq, List.length_finRange, Nat.sub_self]

/-- Two sequences on a pool of two blocks; the third append finds none. -/
def exhausted : List (CacheOp ⟨1, 1, 1, 1, 2⟩ ℤ) :=
  let append (seqId : String) : CacheOp ⟨1, 1, 1, 1, 2⟩ ℤ :=
    .appendTokenKv seqId 0 0 (fun _ => 1) (fun _ => 2)
  [.createSequence "a", .createSequence "b", append "a", .incrementTokenCount "a", append "b",
    append "a"]

theorem block_ownership_exhausted : ∃ s, (machine ⟨1, 1, 1, 1, 2⟩ ℤ).Run exhausted s ∧
    s.allocator.freeList = [] ∧ (∀ b, s.OwnedOnce b) ∧ s.flush.allocator.usedBlocks = 0 := by
  have hrun : (machine ⟨1, 1, 1, 1, 2⟩ ℤ).Run exhausted _ := (Machine.run_iff_exec _).mpr rfl
  obtain ⟨honce, -, hflush, -⟩ := block_ownership hrun
  exact ⟨_, hrun, rfl, honce, hflush⟩

end CacheManager
end InferenceCluster
