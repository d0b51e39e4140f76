import InferenceCluster.Sanity.CacheManager
import InferenceCluster.Spec.Sequences

/-! When a call finds no block left, and what it has changed by then: nothing. -/

namespace InferenceCluster

variable {cfg : BlockConfig} {α : Type}

/-- The calls that may need a block. -/
inductive MemoryCall (cfg : BlockConfig) (α : Type) where
  | allocate
  | getOrCreatePrefixBlock (prefixHash : ℤ)
  | copyOnWrite (b : BlockId cfg)
  | appendTokenKv (seqId : String) (layer : Fin cfg.numLayers) (head : Fin cfg.numHeads)
      (k v : Vec cfg α)

namespace CacheManager

/-- A call on the manager's allocator. -/
def onAllocator {β : Type} (m : AllocM cfg α β) (s : CacheManager cfg α) :
    EStateM.Result CacheError (CacheManager cfg α) Unit :=
  match m s.allocator with
  | .ok _ a => .ok () { s with allocator := a }
  | .error e a => .error (.memoryError e) { s with allocator := a }

/-- What a call ends with, the state at a raise included; the methods of a sequence are called
while it is active. -/
def perform (s : CacheManager cfg α) :
    MemoryCall cfg α → Option (EStateM.Result CacheError (CacheManager cfg α) Unit)
  | .allocate => some (s.onAllocator BlockAllocator.allocate)
  | .getOrCreatePrefixBlock h => some (s.onAllocator (BlockAllocator.getOrCreatePrefixBlock h))
  | .copyOnWrite b => some (s.onAllocator (BlockAllocator.copyOnWrite b))
  | .appendTokenKv seqId layer head k v =>
    (s.sequences.get? seqId).map fun seq =>
      match CacheState.appendTokenKv layer head k v ⟨s.allocator, seq⟩ with
      | .ok _ st => .ok () (s.put seqId st)
      | .error e st => .error e (s.put seqId st)

/-- The calls that need a block of an empty free list. -/
def Exhausted (s : CacheManager cfg α) : MemoryCall cfg α → Prop
  | .allocate => s.allocator.freeList = []
  | .getOrCreatePrefixBlock h =>
    s.allocator.prefixCache.contains h = false ∧ s.allocator.freeList = []
  | .copyOnWrite b => 1 < (s.allocator.pool b).refCount ∧ s.allocator.freeList = []
  | .appendTokenKv seqId _ _ _ _ =>
    s.allocator.freeList = [] ∧ ∃ seq, s.sequences.get? seqId = some seq ∧
      (seq.lastBlockFull = true ∨
        ∃ b, seq.blockTable.getLast? = some b ∧ 1 < (s.allocator.pool b).refCount)

end CacheManager

namespace BlockAllocator

variable (a : BlockAllocator cfg α)

theorem popFree_cases (message : String) (prefixHash : Option ℤ) :
    (a.freeList = [] ∧ ∃ e, popFree message prefixHash a = .error e a) ∨
      a.freeList ≠ [] ∧ ∃ b a', popFree message prefixHash a = .ok b a' := by
  cases hp : popFree message prefixHash a with
  | error e a' =>
    obtain ⟨hl, rfl⟩ := popFree_error hp
    exact .inl ⟨hl, e, rfl⟩
  | ok b a' =>
    obtain ⟨rest, hr, -⟩ := popFree_ok hp
    exact .inr ⟨by simp [hr], b, a', rfl⟩

theorem getOrCreatePrefixBlock_cases (h : ℤ) :
    ((a.prefixCache.contains h = false ∧ a.freeList = []) ∧
        ∃ e, getOrCreatePrefixBlock h a = .error e a) ∨
      ¬(a.prefixCache.contains h = false ∧ a.freeList = []) ∧
        ∃ r a', getOrCreatePrefixBlock h a = .ok r a' := by
  cases hp : getOrCreatePrefixBlock h a with
  | error e a' =>
    obtain ⟨hnone, hl, rfl⟩ := getOrCreatePrefixBlock_error hp
    exact .inl ⟨⟨by rw [PyDict.contains, hnone]; rfl, hl⟩, e, rfl⟩
  | ok r a' =>
    refine .inr ⟨?_, r, a', rfl⟩
    rintro ⟨hnot, hl⟩
    have hsource := getOrCreatePrefixBlock_source hp
    rw [PyDict.contains, Option.isSome_eq_false_iff, Option.isNone_iff_eq_none] at hnot
    rw [hnot, hl] at hsource
    cases hsource

theorem notShared_eq_false_iff (b : BlockId cfg) :
    a.notShared b = false ↔ 1 < (a.pool b).refCount := by
  simp [notShared]

theorem copyOnWrite_cases (b : BlockId cfg) :
    ((1 < (a.pool b).refCount ∧ a.freeList = []) ∧ ∃ e, copyOnWrite b a = .error e a) ∨
      ¬(1 < (a.pool b).refCount ∧ a.freeList = []) ∧ ∃ new a', copyOnWrite b a = .ok new a' := by
  cases hp : copyOnWrite b a with
  | error e a' =>
    obtain ⟨hshared, hl, rfl⟩ := copyOnWrite_error hp
    exact .inl ⟨⟨(notShared_eq_false_iff _ b).mp hshared, hl⟩, e, rfl⟩
  | ok new a' =>
    refine .inr ⟨?_, new, a', rfl⟩
    rintro ⟨hshared, hl⟩
    rcases copyOnWrite_ok hp with ⟨hns, -⟩ | ⟨-, a₁, hpop, -⟩
    · rw [(notShared_eq_false_iff _ b).mpr hshared] at hns
      cases hns
    · obtain ⟨rest, hr, -⟩ := popFree_ok hpop
      rw [hl] at hr
      simp at hr

end BlockAllocator

namespace CacheState

/-- An append finds no block where it needs one: at a full block, or at a shared one. -/
theorem append_cases (st : CacheState cfg α) (layer : Fin cfg.numLayers)
    (head : Fin cfg.numHeads) (k v : Vec cfg α) :
    ((st.allocator.freeList = [] ∧ (st.seq.lastBlockFull = true ∨
        ∃ b, st.seq.blockTable.getLast? = some b ∧ 1 < (st.allocator.pool b).refCount)) ∧
      ∃ e, appendTokenKv layer head k v st = .error (.memoryError e) st) ∨
    ¬(st.allocator.freeList = [] ∧ (st.seq.lastBlockFull = true ∨
        ∃ b, st.seq.blockTable.getLast? = some b ∧ 1 < (st.allocator.pool b).refCount)) ∧
      ∃ st', appendTokenKv layer head k v st = .ok () st' := by
  cases hf : st.seq.lastBlockFull with
  | true =>
    rcases st.allocator.popFree_cases _ none with ⟨hl, e, hp⟩ | ⟨hl, b, a, hp⟩
    · exact .inl ⟨⟨hl, .inl rfl⟩, e, append_full_error layer head k v hf hp⟩
    · exact .inr ⟨fun h => hl h.1, _, append_full layer head k v hf hp rfl⟩
  | false =>
    obtain ⟨init, b, ht⟩ := exists_last hf
    have hlast : ∀ c, st.seq.blockTable.getLast? = some c ↔ b = c := by
      intro c
      rw [ht, List.getLast?_concat, Option.some.injEq]
    rcases st.allocator.copyOnWrite_cases b with ⟨⟨hshared, hl⟩, e, hcow⟩ | ⟨hnot, new, a, hcow⟩
    · exact .inl ⟨⟨hl, .inr ⟨b, (hlast b).mpr rfl, hshared⟩⟩, e,
        append_room_error layer head k v hf ht hcow⟩
    · refine .inr ⟨?_, _, append_room layer head k v hf ht hcow⟩
      rintro ⟨hl, hfull | ⟨c, hc, hshared⟩⟩
      · cases hfull
      · obtain rfl := (hlast c).mp hc
        exact hnot ⟨hshared, hl⟩

end CacheState

namespace CacheManager

/-- A call on the allocator ends as the method does. -/
theorem onAllocator_cases {β : Type} {m : AllocM cfg α β} {s : CacheManager cfg α} {short : Prop}
    (h : (short ∧ ∃ e, m s.allocator = .error e s.allocator) ∨
      ¬short ∧ ∃ x a, m s.allocator = .ok x a) :
    (short ∧ ∃ e, s.onAllocator m = .error (.memoryError e) s) ∨
      ¬short ∧ ∃ s', s.onAllocator m = .ok () s' := by
  rcases h with ⟨hs, e, he⟩ | ⟨hs, x, a, hx⟩
  · exact .inl ⟨hs, e, by rw [onAllocator, he]⟩
  · exact .inr ⟨hs, _, by rw [onAllocator, hx]⟩

theorem put_self {s : CacheManager cfg α} {seqId : String} {seq : SequenceCache cfg}
    (h : s.sequences.get? seqId = some seq) : s.put seqId ⟨s.allocator, seq⟩ = s := by
  rw [put, PyDict.set_of_get? h]

/-- In every state, and so in every one that any use of the cache reaches: the calls that raise
are those that need a block of an empty free list, and a call that raises changes nothing. -/
theorem out_of_memory {s : CacheManager cfg α} {call : MemoryCall cfg α}
    {r : EStateM.Result CacheError (CacheManager cfg α) Unit} (h : s.perform call = some r) :
    (s.Exhausted call ∧ ∃ e, r = .error (.memoryError e) s) ∨
      ¬s.Exhausted call ∧ ∃ s', r = .ok () s' := by
  cases call with
  | allocate =>
    obtain rfl := Option.some.inj h
    exact onAllocator_cases (s.allocator.popFree_cases _ none)
  | getOrCreatePrefixBlock hash =>
    obtain rfl := Option.some.inj h
    exact onAllocator_cases (s.allocator.getOrCreatePrefixBlock_cases hash)
  | copyOnWrite b =>
    obtain rfl := Option.some.inj h
    exact onAllocator_cases (s.allocator.copyOnWrite_cases b)
  | appendTokenKv seqId layer head k v =>
    obtain ⟨seq, hseq, rfl⟩ := Option.map_eq_some_iff.mp h
    have hshort : s.Exhausted (.appendTokenKv seqId layer head k v) ↔
        s.allocator.freeList = [] ∧ (seq.lastBlockFull = true ∨
          ∃ b, seq.blockTable.getLast? = some b ∧ 1 < (s.allocator.pool b).refCount) := by
      simp [Exhausted, hseq]
    rw [hshort]
    rcases CacheState.append_cases ⟨s.allocator, seq⟩ layer head k v with
      ⟨hs, e, he⟩ | ⟨hs, st', hst⟩
    · refine .inl ⟨hs, e, ?_⟩
      rw [he]
      exact congrArg _ (put_self hseq)
    · exact .inr ⟨hs, _, by rw [hst]⟩

def fill : List (CacheOp ⟨1, 1, 1, 1, 1⟩ ℤ) :=
  [.createSequence "a", .appendTokenKv "a" (Fin.last 0) (Fin.last 0) (fun _ => 1) (fun _ => 2),
    .incrementTokenCount "a"]

/-- The only block of the pool is taken, and full. -/
def filled : CacheManager ⟨1, 1, 1, 1, 1⟩ ℤ :=
  ((machine ⟨1, 1, 1, 1, 1⟩ ℤ).exec (init _ ℤ) fill).getD (init _ ℤ)

theorem out_of_memory_filled : (machine ⟨1, 1, 1, 1, 1⟩ ℤ).Run fill filled ∧
    ∃ e, filled.perform (.appendTokenKv "a" 0 0 (fun _ => 3) (fun _ => 4)) =
      some (.error (.memoryError e) filled) := by
  refine ⟨(Machine.run_iff_exec _).mpr rfl, ?_⟩
  obtain ⟨r, hr⟩ : ∃ r, filled.perform (.appendTokenKv "a" 0 0 (fun _ => 3) (fun _ => 4)) =
    some r := ⟨_, rfl⟩
  rcases out_of_memory hr with ⟨-, e, rfl⟩ | ⟨hroom, -⟩
  · exact ⟨e, hr⟩
  · exact absurd ⟨rfl, _, rfl, .inl rfl⟩ hroom

end CacheManager
end InferenceCluster
