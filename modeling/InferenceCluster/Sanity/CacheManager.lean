import InferenceCluster.Spec.CacheManager
import InferenceCluster.Sanity.Contents

/-! What one `append_token_kv` does to a sequence that owns its blocks alone, beside any
blocks in use elsewhere, and what `get_kv` reads. -/

namespace InferenceCluster

variable {cfg : BlockConfig} {α : Type}

namespace SequenceCache

theorem tokensInLastBlock_of_ne (seq : SequenceCache cfg) (ht : seq.blockTable ≠ []) :
    seq.tokensInLastBlock =
      if seq.numCachedTokens % cfg.blockSize = 0 then cfg.blockSize
      else seq.numCachedTokens % cfg.blockSize := by
  unfold tokensInLastBlock
  simp [ht]

theorem lastBlockFull_iff (seq : SequenceCache cfg) (hbs : 1 ≤ cfg.blockSize) :
    seq.lastBlockFull = true ↔
      seq.blockTable = [] ∨ seq.numCachedTokens % cfg.blockSize = 0 := by
  rw [lastBlockFull, decide_eq_true_iff]
  by_cases ht : seq.blockTable = []
  · simp [ht]
  · have hlt := Nat.mod_lt seq.numCachedTokens hbs
    simp only [ht, false_or, seq.tokensInLastBlock_of_ne ht]
    split_ifs <;> omega

theorem slot_of_ne (seq : SequenceCache cfg) (hbs : 1 ≤ cfg.blockSize) (ht : seq.blockTable ≠ []) :
    seq.slot = seq.numCachedTokens % cfg.blockSize := by
  have hlt := Nat.mod_lt seq.numCachedTokens hbs
  unfold slot
  rw [seq.tokensInLastBlock_of_ne ht]
  split_ifs <;> omega

end SequenceCache

namespace CacheState

open BlockAllocator

/-- The blocks of the table are in use once each, through this table only. -/
structure Owned (st : CacheState cfg α) : Prop where
  valid : st.allocator.Valid fun b => st.seq.blockTable.count b
  nodup : st.seq.blockTable.Nodup

theorem owned_init (cfg : BlockConfig) (α : Type) [Zero α] (seqId : String) :
    (init cfg α seqId).Owned := ⟨valid_init cfg α, List.nodup_nil⟩

/-- The blocks of the table and the blocks `rest` are in use once each, through this table
or elsewhere. -/
structure OwnedBeside (rest : List (BlockId cfg)) (st : CacheState cfg α) : Prop where
  valid : st.allocator.Valid fun b => (st.seq.blockTable ++ rest).count b
  nodup : (st.seq.blockTable ++ rest).Nodup

theorem owned_iff {st : CacheState cfg α} : st.Owned ↔ st.OwnedBeside [] := by
  constructor
  · rintro ⟨hv, hn⟩
    exact ⟨by simpa using hv, by simpa using hn⟩
  · rintro ⟨hv, hn⟩
    exact ⟨by simpa using hv, by simpa using hn⟩

variable {rest : List (BlockId cfg)}

theorem OwnedBeside.notShared {st : CacheState cfg α} (h : st.OwnedBeside rest) {b : BlockId cfg}
    (hb : b ∈ st.seq.blockTable) : st.allocator.notShared b = true := by
  unfold BlockAllocator.notShared
  rw [h.valid.count, List.count_eq_one_of_mem h.nodup (List.mem_append_left _ hb)]
  rfl

/-- Free blocks and the blocks of the table make up the pool. -/
theorem Owned.length_add {st : CacheState cfg α} (h : st.Owned) :
    st.allocator.freeList.length + st.seq.blockTable.length = cfg.numBlocks := by
  have hmem : ∀ b, b ∈ st.allocator.freeList ↔ b ∉ st.seq.blockTable := fun b => by
    rw [← h.valid.held_of_free, List.count_eq_zero]
  have hn : (st.allocator.freeList ++ st.seq.blockTable).Nodup :=
    List.nodup_append.mpr ⟨h.valid.nodup, h.nodup, fun a ha b hb he =>
      (hmem a).mp ha (he ▸ hb)⟩
  have hall : (st.allocator.freeList ++ st.seq.blockTable).toFinset = Finset.univ := by
    refine Finset.eq_univ_iff_forall.mpr fun b => ?_
    rw [List.mem_toFinset, List.mem_append, hmem]
    exact (em _).symm
  have hcard := List.toFinset_card_of_nodup hn
  rw [hall, Finset.card_univ, Fintype.card_fin, List.length_append] at hcard
  exact hcard.symm

theorem copyOnWrite_of_notShared {a : BlockAllocator cfg α} {b : BlockId cfg}
    (h : a.notShared b = true) : copyOnWrite b a = .ok b a := by
  rw [copyOnWrite_eq, if_pos h]

theorem writeSlot_pool (st : CacheState cfg α) (b c : BlockId cfg) (layer : Fin cfg.numLayers)
    (head : Fin cfg.numHeads) (slot : ℕ) (k v : Vec cfg α) :
    ((st.writeSlot b layer head slot k v).allocator.pool c).contents =
      if c = b then ⟨(st.allocator.pool b).k.put layer head slot k,
        (st.allocator.pool b).v.put layer head slot v⟩
      else (st.allocator.pool c).contents := by
  unfold writeSlot
  rw [overwrite_contents]
  rfl

theorem OwnedBeside.push {st : CacheState cfg α} (h : st.OwnedBeside rest) {b : BlockId cfg}
    {a : BlockAllocator cfg α} (hp : allocate st.allocator = .ok b a) :
    ((⟨a, st.seq⟩ : CacheState cfg α).setTable (st.seq.blockTable ++ [b])).OwnedBeside rest := by
  obtain ⟨free, hr, -⟩ := popFree_ok hp
  have hb : b ∉ st.seq.blockTable ++ rest := by
    rw [← List.count_eq_zero, h.valid.held_of_free, hr]
    simp
  have hperm : (st.seq.blockTable ++ [b] ++ rest).Perm (b :: (st.seq.blockTable ++ rest)) := by
    rw [List.append_assoc, List.singleton_append]
    exact List.perm_middle
  refine ⟨h.valid.allocate hp fun c => ?_, ?_⟩
  · simp only [setTable, hperm.count_eq, List.count_cons, beq_iff_eq, @eq_comm _ b]
  · exact hperm.nodup_iff.mpr (List.nodup_cons.mpr ⟨hb, h.nodup⟩)

theorem OwnedBeside.writeSlot {st : CacheState cfg α} (h : st.OwnedBeside rest) {b : BlockId cfg}
    (hb : b ∈ st.seq.blockTable) (layer : Fin cfg.numLayers) (head : Fin cfg.numHeads)
    (slot : ℕ) (k v : Vec cfg α) : (st.writeSlot b layer head slot k v).OwnedBeside rest :=
  ⟨h.valid.overwrite (List.count_pos_iff.mpr (List.mem_append_left _ hb)) fun c =>
    ⟨c.k.put layer head slot k, c.v.put layer head slot v⟩, h.nodup⟩

theorem run_onAllocator_ok {β : Type} {m : AllocM cfg α β} {st : CacheState cfg α} {x : β}
    {a : BlockAllocator cfg α} (h : m st.allocator = .ok x a) :
    (onAllocator m).run st = .ok x { st with allocator := a } := by
  simp only [onAllocator, EStateM.run, h]

theorem run_onAllocator_error {β : Type} {m : AllocM cfg α β} {st : CacheState cfg α}
    {e : MemoryError} {a : BlockAllocator cfg α} (h : m st.allocator = .error e a) :
    (onAllocator m).run st = .error (.memoryError e) { st with allocator := a } := by
  simp only [onAllocator, EStateM.run, h]

/-! ### Appending -/

section Append

variable {st : CacheState cfg α} (layer : Fin cfg.numLayers) (head : Fin cfg.numHeads)
variable (k v : Vec cfg α)

theorem append_full_error (hf : st.seq.lastBlockFull = true) {e : MemoryError}
    {a : BlockAllocator cfg α} (hp : allocate st.allocator = .error e a) :
    appendTokenKv layer head k v st = .error (.memoryError e) { st with allocator := a } := by
  change (appendTokenKv layer head k v).run st = _
  unfold appendTokenKv
  simp only [EStateM.run_bind, EStateM.run_get, hf, if_true, run_onAllocator_error hp]

/-- A new block has one reference, so `copy_on_write` leaves it alone. -/
theorem append_full (hf : st.seq.lastBlockFull = true) {b : BlockId cfg} {a : BlockAllocator cfg α}
    (hp : allocate st.allocator = .ok b a) {st₁ : CacheState cfg α}
    (h₁ : st₁ = (⟨a, st.seq⟩ : CacheState cfg α).setTable (st.seq.blockTable ++ [b])) :
    appendTokenKv layer head k v st = .ok () (st₁.writeSlot b layer head st₁.seq.slot k v) := by
  subst h₁
  have hns : a.notShared b = true := by
    obtain ⟨rest, -, rfl⟩ := popFree_ok hp
    simp [BlockAllocator.notShared, BlockAllocator.setBlock]
  have hcow : copyOnWrite b a = .ok b a := copyOnWrite_of_notShared hns
  change (appendTokenKv layer head k v).run st = _
  unfold appendTokenKv
  simp only [EStateM.run_bind, EStateM.run_get, hf, if_true, run_onAllocator_ok hp,
    EStateM.run_modify, setTable, List.getLast?_concat]
  rw [run_onAllocator_ok hcow]
  simp only [List.dropLast_concat]

variable {init : List (BlockId cfg)} {b : BlockId cfg}

theorem append_room (hf : st.seq.lastBlockFull = false) (ht : st.seq.blockTable = init ++ [b])
    {new : BlockId cfg} {a : BlockAllocator cfg α}
    (hcow : copyOnWrite b st.allocator = .ok new a) : appendTokenKv layer head k v st =
      .ok () (((⟨a, st.seq⟩ : CacheState cfg α).setTable (init ++ [new])).writeSlot new layer head
        st.seq.slot k v) := by
  change (appendTokenKv layer head k v).run st = _
  unfold appendTokenKv
  have hl : st.seq.blockTable.getLast? = some b := by rw [ht, List.getLast?_concat]
  simp only [EStateM.run_bind, EStateM.run_get, hf, Bool.false_eq_true, if_false,
    EStateM.run_modify, hl]
  rw [run_onAllocator_ok hcow]
  simp only [setTable, ht, List.dropLast_concat]

theorem append_room_error (hf : st.seq.lastBlockFull = false)
    (ht : st.seq.blockTable = init ++ [b]) {e : MemoryError} {a : BlockAllocator cfg α}
    (hcow : copyOnWrite b st.allocator = .error e a) :
    appendTokenKv layer head k v st = .error (.memoryError e) { st with allocator := a } := by
  change (appendTokenKv layer head k v).run st = _
  unfold appendTokenKv
  have hl : st.seq.blockTable.getLast? = some b := by rw [ht, List.getLast?_concat]
  simp only [EStateM.run_bind, EStateM.run_get, hf, Bool.false_eq_true, if_false, hl]
  rw [run_onAllocator_error hcow]

end Append

/-- A table whose last block has room is not empty. -/
theorem exists_last {seq : SequenceCache cfg} (hf : seq.lastBlockFull = false) :
    ∃ init b, seq.blockTable = init ++ [b] := by
  refine (List.eq_nil_or_concat' _).resolve_left fun ht => ?_
  simp [SequenceCache.lastBlockFull, ht] at hf

/-- What an append can do: raise, write to a new block at the end of the table, or write
to the last block in place. -/
theorem appendTokenKv_cases {st : CacheState cfg α} (h : st.OwnedBeside rest)
    (layer : Fin cfg.numLayers) (head : Fin cfg.numHeads) (k v : Vec cfg α) :
    (st.seq.lastBlockFull = true ∧ st.allocator.freeList = [] ∧
      ∃ e, appendTokenKv layer head k v st = .error e st) ∨
    (st.seq.lastBlockFull = true ∧ ∃ b a, allocate st.allocator = .ok b a ∧
      ∀ st₁, st₁ = (⟨a, st.seq⟩ : CacheState cfg α).setTable (st.seq.blockTable ++ [b]) →
        appendTokenKv layer head k v st = .ok () (st₁.writeSlot b layer head st₁.seq.slot k v)) ∨
    (st.seq.lastBlockFull = false ∧ ∃ init b, st.seq.blockTable = init ++ [b] ∧
      appendTokenKv layer head k v st = .ok () (st.writeSlot b layer head st.seq.slot k v)) := by
  cases hf : st.seq.lastBlockFull with
  | true =>
    cases hp : allocate st.allocator with
    | error e a =>
      obtain ⟨hl, rfl⟩ := popFree_error hp
      exact .inl ⟨rfl, hl, .memoryError e, append_full_error layer head k v hf hp⟩
    | ok b a =>
      exact .inr (.inl ⟨rfl, b, a, rfl, fun st₁ h₁ => append_full layer head k v hf hp h₁⟩)
  | false =>
    obtain ⟨init, b, ht⟩ := exists_last hf
    have hcow : copyOnWrite b st.allocator = .ok b st.allocator :=
      copyOnWrite_of_notShared (h.notShared (by simp [ht]))
    refine .inr (.inr ⟨rfl, init, b, ht, ?_⟩)
    rw [append_room layer head k v hf ht hcow, setTable, ← ht]

/-- An append that does not raise lengthens the table exactly when the last block counts
as full. -/
theorem OwnedBeside.append {st st' : CacheState cfg α} (h : st.OwnedBeside rest)
    {layer : Fin cfg.numLayers} {head : Fin cfg.numHeads} {k v : Vec cfg α}
    (hs : appendTokenKv layer head k v st = .ok () st') :
    st'.OwnedBeside rest ∧ st'.seq.numCachedTokens = st.seq.numCachedTokens ∧
      st'.seq.blockTable.length =
        st.seq.blockTable.length + if st.seq.lastBlockFull then 1 else 0 := by
  rcases appendTokenKv_cases h layer head k v with
    ⟨-, -, e, he⟩ | ⟨hf, b, a, hp, ha⟩ | ⟨hf, init, b, ht, ha⟩
  · rw [he] at hs
    cases hs
  · rw [ha _ rfl] at hs
    injection hs with _ hs
    subst hs
    refine ⟨(h.push hp).writeSlot (by simp [setTable]) _ _ _ _ _, rfl, ?_⟩
    simp [CacheState.writeSlot, setTable, hf]
  · rw [ha] at hs
    injection hs with _ hs
    subst hs
    refine ⟨h.writeSlot (by simp [ht]) _ _ _ _ _, rfl, ?_⟩
    simp [CacheState.writeSlot, hf]

theorem Owned.append {st st' : CacheState cfg α} (h : st.Owned) {layer : Fin cfg.numLayers}
    {head : Fin cfg.numHeads} {k v : Vec cfg α} (hs : appendTokenKv layer head k v st = .ok () st') :
    st'.Owned ∧ st'.seq.numCachedTokens = st.seq.numCachedTokens ∧
      st'.seq.blockTable.length =
        st.seq.blockTable.length + if st.seq.lastBlockFull then 1 else 0 :=
  (owned_iff.mp h).append hs |>.imp_left owned_iff.mpr

/-! ### Reading -/

theorem length_rows (slab : Slab cfg α) (layer : Fin cfg.numLayers) :
    (slab.rows layer).length = cfg.blockSize := by
  simp [Slab.rows]

/-- `get_kv` reads all slots of the blocks before the last one and the first
`_tokens_in_last_block` slots of that one. -/
theorem gather_concat {st : CacheState cfg α} (hbs : 1 ≤ cfg.blockSize)
    (slab : PhysicalBlock cfg α → Slab cfg α) (layer : Fin cfg.numLayers)
    {init : List (BlockId cfg)} {b : BlockId cfg} (ht : st.seq.blockTable = init ++ [b]) :
    st.gather slab layer =
      (init.flatMap fun c => (slab (st.allocator.pool c)).rows layer) ++
        ((slab (st.allocator.pool b)).rows layer).take st.seq.tokensInLastBlock := by
  have hpos : st.seq.tokensInLastBlock ≠ 0 := by
    have hlt := Nat.mod_lt st.seq.numCachedTokens hbs
    rw [st.seq.tokensInLastBlock_of_ne (by simp [ht])]
    split_ifs <;> omega
  have hfull : ∀ p ∈ init.zipIdx, ((slab (st.allocator.pool p.1)).rows layer).take
      (st.seq.tokensInBlock p.2) = (slab (st.allocator.pool p.1)).rows layer := by
    rintro ⟨c, i⟩ hp
    have hi : i < init.length := by
      have := List.snd_lt_add_of_mem_zipIdx hp
      simpa using this
    have hti : st.seq.tokensInBlock i = cfg.blockSize := by
      unfold SequenceCache.tokensInBlock
      rw [if_pos (by simp [ht, hi])]
    rw [hti, List.take_of_length_le (length_rows _ _).le]
  have hlast : st.seq.tokensInBlock init.length = st.seq.tokensInLastBlock := by
    unfold SequenceCache.tokensInBlock
    rw [if_neg (by simp [ht]), if_neg hpos]
  unfold gather
  rw [ht, List.zipIdx_append, List.flatMap_append, List.flatMap_congr hfull]
  congr 1
  · conv_rhs => rw [← List.zipIdx_map_fst 0 init, List.flatMap_map]
  · simp [hlast]

theorem getElem_rows (slab : Slab cfg α) (layer : Fin cfg.numLayers) {i : ℕ}
    (h : i < (slab.rows layer).length) :
    (slab.rows layer)[i] = fun head => slab layer head ⟨i, length_rows slab layer ▸ h⟩ := by
  unfold Slab.rows
  exact List.getElem_ofFn _

theorem rows_put [Subsingleton (Fin cfg.numHeads)] (slab : Slab cfg α) (layer : Fin cfg.numLayers)
    (head : Fin cfg.numHeads) (slot : ℕ) (vec : Vec cfg α) :
    (slab.put layer head slot vec).rows layer = (slab.rows layer).set slot fun _ => vec := by
  refine List.ext_getElem (by simp [length_rows]) fun i h₁ h₂ => ?_
  rw [getElem_rows, List.getElem_set, getElem_rows]
  split_ifs with hi
  · funext h
    simp [Slab.put, Subsingleton.elim h head, hi]
  · funext h
    simp [Slab.put, Ne.symm hi]

theorem take_succ_set {β : Type} {l : List β} {n : ℕ} (h : n < l.length) (x : β) :
    (l.set n x).take (n + 1) = l.take n ++ [x] := by
  rw [List.take_add_one, List.take_set_of_le (Nat.le_refl n), List.getElem?_set_self h,
    Option.toList_some]

end CacheState

namespace SequenceCache

/-- Tokens counted after a token was written into a non-empty table. -/
theorem tokensInLastBlock_succ (seq : SequenceCache cfg) (hbs : 1 ≤ cfg.blockSize)
    (ht : seq.blockTable ≠ []) {n : ℕ} (hn : seq.numCachedTokens = n + 1) :
    seq.tokensInLastBlock = n % cfg.blockSize + 1 := by
  have hlt := Nat.mod_lt n hbs
  have hmod : (n + 1) % cfg.blockSize = (n % cfg.blockSize + 1) % cfg.blockSize := by simp
  rw [seq.tokensInLastBlock_of_ne ht, hn, hmod]
  by_cases h : n % cfg.blockSize + 1 = cfg.blockSize
  · simp [h]
  · rw [Nat.mod_eq_of_lt (by omega), if_neg (by omega)]

end SequenceCache
end InferenceCluster
