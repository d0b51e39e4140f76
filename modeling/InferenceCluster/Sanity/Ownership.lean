import InferenceCluster.Spec.Sequences
import InferenceCluster.Sanity.CacheManager

/-! Who owns which block. The blocks in use are those of the tables of the active
sequences, once each; every call on one sequence keeps that, and changes no block of
another. -/

namespace InferenceCluster

variable {cfg : BlockConfig} {α : Type}

namespace CacheState

open BlockAllocator

variable {rest : List (BlockId cfg)}

/-- An append, successful or not, changes no block in use elsewhere. -/
theorem OwnedBeside.appended {st st' : CacheState cfg α} (h : st.OwnedBeside rest)
    {layer : Fin cfg.numLayers} {head : Fin cfg.numHeads} {k v : Vec cfg α}
    (hs : appendTokenKv layer head k v st = .ok () st' ∨
      ∃ e, appendTokenKv layer head k v st = .error e st') :
    st'.OwnedBeside rest ∧
      ∀ c ∈ rest, (st'.allocator.pool c).contents = (st.allocator.pool c).contents := by
  have hne : ∀ {st₁ : CacheState cfg α} {b c}, st₁.OwnedBeside rest → b ∈ st₁.seq.blockTable →
      c ∈ rest → c ≠ b := fun h₁ hb hc he =>
    List.disjoint_of_nodup_append h₁.nodup hb (he ▸ hc)
  rcases appendTokenKv_cases h layer head k v with
    ⟨-, -, e, he⟩ | ⟨-, b, a, hp, ha⟩ | ⟨-, init, b, ht, ha⟩
  · -- nothing was popped
    rw [he] at hs
    rcases hs with hs | ⟨e', hs⟩ <;> cases hs
    exact ⟨h, fun _ _ => rfl⟩
  · rw [ha _ rfl] at hs
    rcases hs with hs | ⟨e', hs⟩ <;> cases hs
    have hpush := h.push hp
    have hb : b ∈ ((⟨a, st.seq⟩ : CacheState cfg α).setTable (st.seq.blockTable ++ [b])).seq.blockTable := by
      simp [setTable]
    refine ⟨hpush.writeSlot hb _ _ _ _ _, fun c hc => ?_⟩
    rw [writeSlot_pool, if_neg (hne hpush hb hc)]
    exact popFree_contents hp c
  · rw [ha] at hs
    rcases hs with hs | ⟨e', hs⟩ <;> cases hs
    have hb : b ∈ st.seq.blockTable := by simp [ht]
    refine ⟨h.writeSlot hb _ _ _ _ _, fun c hc => ?_⟩
    rw [writeSlot_pool, if_neg (hne h hb hc)]

theorem free_contents (st : CacheState cfg α) (c : BlockId cfg) :
    (st.free.allocator.pool c).contents = (st.allocator.pool c).contents := by
  have hfold : ∀ (table : List (BlockId cfg)) (a : BlockAllocator cfg α),
      ((table.foldl decRef a).pool c).contents = (a.pool c).contents := by
    intro table
    induction table with
    | nil => exact fun _ => rfl
    | cons b table ih => exact fun a => (ih _).trans (a.decRef_contents b c)
  exact hfold st.seq.blockTable st.allocator

/-- Only the blocks in use elsewhere stay in use. -/
theorem OwnedBeside.free {st : CacheState cfg α} (h : st.OwnedBeside rest) :
    st.free.allocator.Valid fun b => rest.count b := by
  have hfold : ∀ (table : List (BlockId cfg)) (a : BlockAllocator cfg α),
      (a.Valid fun b => (table ++ rest).count b) →
        (table.foldl decRef a).Valid fun b => rest.count b := by
    intro table
    induction table with
    | nil => exact fun _ hv => hv
    | cons b table ih =>
      refine fun a hv => ih _ (hv.decRef fun c => ?_)
      simp only [List.cons_append, List.count_cons, beq_iff_eq, @eq_comm _ b]
  exact hfold st.seq.blockTable st.allocator h.valid

/-- What `get_kv` returns depends on the contents of the blocks in the table. -/
theorem getKv_congr {a a' : BlockAllocator cfg α} {seq : SequenceCache cfg}
    (h : ∀ c ∈ seq.blockTable, (a.pool c).contents = (a'.pool c).contents)
    (layer : Fin cfg.numLayers) :
    getKv (⟨a, seq⟩ : CacheState cfg α) layer = getKv (⟨a', seq⟩ : CacheState cfg α) layer := by
  have hgather : ∀ slab : PhysicalBlock cfg α → Slab cfg α,
      (∀ c ∈ seq.blockTable, slab (a.pool c) = slab (a'.pool c)) →
        gather (⟨a, seq⟩ : CacheState cfg α) slab layer =
          gather (⟨a', seq⟩ : CacheState cfg α) slab layer := by
    intro slab hslab
    refine List.flatMap_congr fun p hp => ?_
    simp only [hslab p.1 (List.fst_mem_of_mem_zipIdx hp)]
  unfold getKv
  split_ifs
  · rfl
  · rw [hgather (·.k) fun c hc => congrArg Contents.k (h c hc),
      hgather (·.v) fun c hc => congrArg Contents.v (h c hc)]

end CacheState

namespace CacheManager

open BlockAllocator

/-- The blocks of all tables. -/
def tables (sequences : PyDict String (SequenceCache cfg)) : List (BlockId cfg) :=
  sequences.values.flatMap SequenceCache.blockTable

theorem tables_perm_pop {sequences : PyDict String (SequenceCache cfg)} {seqId : String}
    {seq : SequenceCache cfg} (h : sequences.get? seqId = some seq) :
    (tables sequences).Perm (seq.blockTable ++ tables (sequences.pop seqId)) :=
  ((PyDict.items_perm_pop h).map Prod.snd).flatMap_right SequenceCache.blockTable

theorem tables_perm_set (sequences : PyDict String (SequenceCache cfg)) (seqId : String)
    (seq : SequenceCache cfg) :
    (tables (sequences.set seqId seq)).Perm (seq.blockTable ++ tables (sequences.pop seqId)) :=
  ((sequences.items_perm_set seqId seq).map Prod.snd).flatMap_right SequenceCache.blockTable

theorem mem_tables {sequences : PyDict String (SequenceCache cfg)} {seqId : String}
    {seq : SequenceCache cfg} (h : sequences.get? seqId = some seq) {b : BlockId cfg}
    (hb : b ∈ seq.blockTable) : b ∈ tables sequences :=
  List.mem_flatMap.mpr ⟨seq, (sequences.mem_values_iff seq).mpr ⟨seqId, h⟩, hb⟩

/-- The blocks in use are those of the tables, once each. -/
structure Owned (s : CacheManager cfg α) : Prop where
  valid : s.allocator.Valid fun b => (tables s.sequences).count b
  nodup : (tables s.sequences).Nodup

theorem owned_init (cfg : BlockConfig) (α : Type) [Zero α] : (init cfg α).Owned :=
  ⟨valid_init cfg α, List.nodup_nil⟩

theorem owned_of_perm {a : BlockAllocator cfg α} {sequences : PyDict String (SequenceCache cfg)}
    {table rest : List (BlockId cfg)} (hp : (tables sequences).Perm (table ++ rest))
    (hv : a.Valid fun b => (table ++ rest).count b) (hn : (table ++ rest).Nodup) :
    (⟨a, sequences⟩ : CacheManager cfg α).Owned := by
  refine ⟨?_, hp.nodup_iff.mpr hn⟩
  simpa only [hp.count_eq] using hv

/-- One sequence, beside the tables of the others. -/
theorem Owned.beside {s : CacheManager cfg α} (h : s.Owned) {seqId : String}
    {seq : SequenceCache cfg} (hg : s.sequences.get? seqId = some seq) :
    (⟨s.allocator, seq⟩ : CacheState cfg α).OwnedBeside (tables (s.sequences.pop seqId)) := by
  have hp := tables_perm_pop hg
  exact ⟨by simpa only [hp.count_eq] using h.valid, hp.nodup_iff.mp h.nodup⟩

theorem Owned.put {s : CacheManager cfg α} {seqId : String} {st : CacheState cfg α}
    (h : st.OwnedBeside (tables (s.sequences.pop seqId))) : (s.put seqId st).Owned :=
  owned_of_perm (tables_perm_set s.sequences seqId st.seq) h.valid h.nodup

/-- What a call on the sequence `seqId` leaves alone: the objects of the other sequences,
and what their blocks hold. -/
structure Frame (seqId : String) (s s' : CacheManager cfg α) : Prop where
  sequences : ∀ k ≠ seqId, s'.sequences.get? k = s.sequences.get? k
  contents : ∀ c ∈ tables (s.sequences.pop seqId),
    (s'.allocator.pool c).contents = (s.allocator.pool c).contents

theorem frame_put (s : CacheManager cfg α) (seqId : String) {st : CacheState cfg α}
    (h : ∀ c ∈ tables (s.sequences.pop seqId),
      (st.allocator.pool c).contents = (s.allocator.pool c).contents) :
    Frame seqId s (s.put seqId st) :=
  ⟨fun _ hk => (PyDict.get?_set _ _ _ _).trans (if_neg hk), h⟩

theorem Owned.freeSequence {s : CacheManager cfg α} (h : s.Owned) (seqId : String) :
    (s.freeSequence seqId).Owned ∧ Frame seqId s (s.freeSequence seqId) := by
  unfold CacheManager.freeSequence
  cases hg : s.sequences.get? seqId with
  | none => exact ⟨h, fun _ _ => rfl, fun _ _ => rfl⟩
  | some seq =>
    have hb := h.beside hg
    refine ⟨⟨hb.free, (List.nodup_append.mp hb.nodup).2.1⟩, fun _ hk => ?_, fun c _ => ?_⟩
    · exact (PyDict.get?_pop _ _ _).trans (if_neg hk)
    · exact CacheState.free_contents _ c

/-- One call on one sequence. -/
theorem Owned.step_subject {s s' : CacheManager cfg α} (h : s.Owned) {op : CacheOp cfg α}
    {seqId : String} (hsub : op.subject = some seqId) (hs : s.step op = some s') :
    s'.Owned ∧ Frame seqId s s' := by
  cases op with
  | createSequence k =>
    obtain rfl : k = seqId := Option.some.inj hsub
    simp only [step, createSequence] at hs
    split_ifs at hs with hc <;> obtain rfl := Option.some.inj hs
    · exact ⟨h, fun _ _ => rfl, fun _ _ => rfl⟩
    · -- a new sequence has no block
      have hnone : s.sequences.get? k = none :=
        (PyDict.contains_eq_false_iff _ _).mp (Bool.eq_false_of_not_eq_true hc)
      have ht : tables (s.sequences.set k { seqId := k }) = tables s.sequences := by
        simp [tables, PyDict.values, PyDict.items_set_of_get?_none _ hnone]
      refine ⟨⟨by simpa only [ht] using h.valid, ht ▸ h.nodup⟩, fun j hj => ?_, fun _ _ => rfl⟩
      exact (PyDict.get?_set _ _ _ _).trans (if_neg hj)
  | appendTokenKv k layer head kVec vVec =>
    obtain rfl : k = seqId := Option.some.inj hsub
    obtain ⟨seq, hg, hs⟩ := Option.map_eq_some_iff.mp hs
    have hb := h.beside hg
    cases hr : CacheState.appendTokenKv layer head kVec vVec ⟨s.allocator, seq⟩ with
    | ok _ st =>
      obtain ⟨ho, hc⟩ := hb.appended (.inl hr)
      rw [hr] at hs
      subst hs
      exact ⟨.put ho, s.frame_put k hc⟩
    | error e st =>
      obtain ⟨ho, hc⟩ := hb.appended (.inr ⟨e, hr⟩)
      rw [hr] at hs
      subst hs
      exact ⟨.put ho, s.frame_put k hc⟩
  | incrementTokenCount k =>
    obtain rfl : k = seqId := Option.some.inj hsub
    obtain ⟨seq, hg, rfl⟩ := Option.map_eq_some_iff.mp hs
    have hb := h.beside hg
    exact ⟨.put ⟨hb.valid, hb.nodup⟩, s.frame_put k fun _ _ => rfl⟩
  | freeSequence k =>
    obtain rfl : k = seqId := Option.some.inj hsub
    obtain rfl := Option.some.inj hs
    exact h.freeSequence k
  | flush => cases hsub

theorem Owned.flush {s : CacheManager cfg α} (h : s.Owned) : s.flush.Owned := by
  unfold CacheManager.flush
  generalize s.sequences.keys = keys
  induction keys generalizing s with
  | nil => exact h
  | cons k keys ih => exact ih (h.freeSequence k).1

theorem get?_freeSequence (s : CacheManager cfg α) (seqId k : String) :
    (s.freeSequence seqId).sequences.get? k =
      if k = seqId then none else s.sequences.get? k := by
  unfold CacheManager.freeSequence
  cases hg : s.sequences.get? seqId with
  | some seq => exact PyDict.get?_pop _ _ _
  | none =>
    split_ifs with hk
    · rw [hk, hg]
    · rfl

/-- A flush leaves no sequence. -/
theorem get?_flush (s : CacheManager cfg α) (k : String) : s.flush.sequences.get? k = none := by
  have hfold : ∀ (keys : List String) (s : CacheManager cfg α),
      (keys.foldl CacheManager.freeSequence s).sequences.get? k =
        if k ∈ keys then none else s.sequences.get? k := by
    intro keys
    induction keys with
    | nil => exact fun _ => rfl
    | cons j keys ih =>
      intro s
      rw [List.foldl_cons, ih, get?_freeSequence]
      by_cases hj : k = j <;> simp [hj]
  unfold CacheManager.flush
  rw [hfold]
  split_ifs with hk
  · rfl
  · exact (PyDict.get?_eq_none_iff _ _).mpr hk

theorem Owned.step {s s' : CacheManager cfg α} (h : s.Owned) {op : CacheOp cfg α}
    (hs : s.step op = some s') : s'.Owned := by
  cases hsub : op.subject with
  | some seqId => exact (h.step_subject hsub hs).1
  | none =>
    cases op with
    | flush =>
      obtain rfl := Option.some.inj hs
      exact h.flush
    | _ => cases hsub

theorem owned_of_reachable [Zero α] {s : CacheManager cfg α} (h : (machine cfg α).Reachable s) :
    s.Owned :=
  Machine.Reachable.invariant (I := Owned) (owned_init cfg α) (fun _ _ _ hI hs => hI.step hs) h

end CacheManager
end InferenceCluster
