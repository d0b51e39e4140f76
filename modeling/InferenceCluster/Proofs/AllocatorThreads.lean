import InferenceCluster.Spec.AllocatorThreads
import InferenceCluster.Sanity.Allocator

/-! The allocator invariant under every interleaving. One section of one thread is
analysed with the handles of the other threads as a frame `rest`. -/

namespace InferenceCluster
namespace ThreadSystem

open BlockAllocator

variable {cfg : BlockConfig} {α Tid : Type}

theorem count_cons_add (l : List (BlockId cfg)) (b c : BlockId cfg) :
    (b :: l).count c = l.count c + if c = b then 1 else 0 := by
  rw [List.count_cons]
  simp only [beq_iff_eq, @eq_comm _ b c]

theorem count_erase_add {l : List (BlockId cfg)} {b : BlockId cfg} (hb : b ∈ l) (c : BlockId cfg) :
    l.count c = (l.erase b).count c + if c = b then 1 else 0 := by
  rw [(List.perm_cons_erase hb).count_eq c, count_cons_add]

section Handles

variable (held : List (BlockId cfg)) (old new c : BlockId cfg)

theorem count_handles_idle : (Thread.handles ⟨held, none⟩).count c = held.count c := by
  simp [Thread.handles]

theorem count_handles_tested : (Thread.handles ⟨held, some (.tested old)⟩).count c =
    held.count c + if c = old then 1 else 0 := by
  simp [Thread.handles, CowPoint.handles, count_cons_add]

theorem count_handles_popped : (Thread.handles ⟨held, some (.popped old new)⟩).count c =
    held.count c + (if c = old then 1 else 0) + if c = new then 1 else 0 := by
  simp [Thread.handles, CowPoint.handles, count_cons_add, Nat.add_comm, Nat.add_left_comm]

theorem count_handles_copied : (Thread.handles ⟨held, some (.copied old new)⟩).count c =
    held.count c + (if c = old then 1 else 0) + if c = new then 1 else 0 :=
  count_handles_popped held old new c

end Handles

/-- A section keeps the allocator valid for the handles of its thread beside `rest`. -/
theorem sectionStep_valid {a a' : BlockAllocator cfg α} {t t' : Thread cfg} {i : Section cfg}
    {rest : BlockId cfg → ℕ} (v : a.Valid fun b => rest b + t.handles.count b)
    (hs : sectionStep a t i = some (a', t')) : a'.Valid fun b => rest b + t'.handles.count b := by
  obtain ⟨held, cow⟩ := t
  unfold sectionStep at hs
  split at hs
  · -- allocate
    rename_i hcow
    obtain rfl : cow = none := hcow
    split at hs <;> rename_i hp <;> obtain ⟨rfl, rfl⟩ := Prod.mk.inj (Option.some.inj hs)
    · refine v.allocate hp fun c => ?_
      simp only [count_handles_idle, count_cons_add]
      omega
    · obtain ⟨-, rfl⟩ := popFree_error hp
      exact v
  · -- free
    rename_i b hcow
    obtain rfl : cow = none := hcow
    split_ifs at hs with hb
    obtain ⟨rfl, rfl⟩ := Prod.mk.inj (Option.some.inj hs)
    refine v.decRef fun c => ?_
    simp only [count_handles_idle, count_erase_add hb c]
    omega
  · -- get_or_create_prefix_block
    rename_i h hcow
    obtain rfl : cow = none := hcow
    split at hs <;> rename_i hp <;> obtain ⟨rfl, rfl⟩ := Prod.mk.inj (Option.some.inj hs)
    · refine v.getOrCreatePrefixBlock hp fun c => ?_
      simp only [count_handles_idle, count_cons_add]
      omega
    · obtain ⟨-, -, rfl⟩ := getOrCreatePrefixBlock_error hp
      exact v
  · -- the unlocked test of copy_on_write
    rename_i b hcow
    obtain rfl : cow = none := hcow
    split_ifs at hs with hb hsh <;> obtain ⟨rfl, rfl⟩ := Prod.mk.inj (Option.some.inj hs)
    · exact v
    · simpa only [count_handles_tested, count_handles_idle, count_erase_add hb] using v
  · -- the locked pop
    rename_i old hcow
    obtain rfl : cow = some (.tested old) := hcow
    split at hs <;> rename_i hp <;> obtain ⟨rfl, rfl⟩ := Prod.mk.inj (Option.some.inj hs)
    · refine v.popFree hp fun c => ?_
      simp only [count_handles_tested, count_handles_popped]
      omega
    · obtain ⟨-, rfl⟩ := popFree_error hp
      simpa only [count_handles_tested, count_handles_idle, count_cons_add] using v
  · -- the copy
    rename_i old new hcow
    obtain rfl : cow = some (.popped old new) := hcow
    obtain ⟨rfl, rfl⟩ := Prod.mk.inj (Option.some.inj hs)
    refine v.cowCopy ?_
    simp only [count_handles_popped, if_true]
    omega
  · -- the locked decrement
    rename_i old new hcow
    obtain rfl : cow = some (.copied old new) := hcow
    obtain ⟨rfl, rfl⟩ := Prod.mk.inj (Option.some.inj hs)
    refine v.decRef fun c => ?_
    simp only [count_handles_copied, count_handles_idle, count_cons_add]
    omega
  · cases hs

variable [Fintype Tid] [DecidableEq Tid]

/-- The handles of the threads other than `t`. -/
def othersOutstanding (s : ThreadSystem cfg α Tid) (t : Tid) (b : BlockId cfg) : ℕ :=
  ∑ u ∈ Finset.univ.erase t, (s.threads u).handles.count b

theorem outstanding_eq (s : ThreadSystem cfg α Tid) (t : Tid) (b : BlockId cfg) :
    s.outstanding b = s.othersOutstanding t b + (s.threads t).handles.count b :=
  (Finset.sum_erase_add _ _ (Finset.mem_univ t)).symm

theorem othersOutstanding_update (s : ThreadSystem cfg α Tid) (a : BlockAllocator cfg α) (t : Tid)
    (x : Thread cfg) (b : BlockId cfg) :
    othersOutstanding ⟨a, Function.update s.threads t x⟩ t b = s.othersOutstanding t b := by
  refine Finset.sum_congr rfl fun u hu => ?_
  exact congrArg (fun x : Thread cfg => x.handles.count b)
    (Function.update_of_ne (Finset.ne_of_mem_erase hu) _ _)

theorem step_valid {s s' : ThreadSystem cfg α Tid} {i : Tid × Section cfg}
    (v : s.allocator.Valid s.outstanding) (hs : step s i = some s') :
    s'.allocator.Valid s'.outstanding := by
  obtain ⟨⟨a', t'⟩, hsec, rfl⟩ := Option.map_eq_some_iff.mp hs
  have hv : s.allocator.Valid fun b =>
      s.othersOutstanding i.1 b + (s.threads i.1).handles.count b := by
    simpa only [← outstanding_eq] using v
  have hv' := sectionStep_valid hv hsec
  have ho : outstanding ⟨a', Function.update s.threads i.1 t'⟩ =
      fun b => s.othersOutstanding i.1 b + t'.handles.count b := by
    funext b
    rw [outstanding_eq _ i.1, othersOutstanding_update]
    simp only [Function.update_self]
  rw [ho]
  exact hv'

theorem reachable_valid [Zero α] {s : ThreadSystem cfg α Tid}
    (h : (machine cfg α Tid).Reachable s) : s.allocator.Valid s.outstanding := by
  refine Machine.Reachable.invariant (I := fun s => s.allocator.Valid s.outstanding) ?_
    (fun s i s' v hs => step_valid v hs) h
  have h0 : (machine cfg α Tid).init.outstanding = fun _ => 0 := by
    funext b
    exact Finset.sum_eq_zero fun t _ => rfl
  rw [h0]
  exact valid_init cfg α

/-- Whatever the interleaving, free list, reference counts, prefix map and outstanding
handles agree. So a block without handles is in the free list exactly once, whichever
of several concurrent copies dropped its last reference, and a block with handles never. -/
theorem allocator_invariant [Zero α] {s : ThreadSystem cfg α Tid}
    (h : (machine cfg α Tid).Reachable s) :
    s.allocator.freeList.Nodup ∧
    (∀ b, b ∈ s.allocator.freeList ↔ (s.allocator.pool b).refCount = 0) ∧
    (∀ b, (s.allocator.pool b).refCount = s.outstanding b) ∧
    (∀ h b, s.allocator.prefixCache.get? h = some b ↔
      (s.allocator.pool b).prefixHash = some h) ∧
    (∀ h b, s.allocator.prefixCache.get? h = some b → 1 ≤ (s.allocator.pool b).refCount) ∧
    ∀ b, s.allocator.freeList.count b = if s.outstanding b = 0 then 1 else 0 := by
  have v := reachable_valid h
  refine ⟨v.nodup, v.free_iff, v.count, v.prefix_iff, v.registered, fun b => ?_⟩
  rw [v.nodup.count]
  simp only [v.held_of_free b]

/-- Two threads share block 2 and copy it concurrently: both pass the unlocked test, and
the second decrement frees it, once. -/
def twoCopies : List (Fin 2 × Section ⟨1, 1, 1, 1, 3⟩) :=
  [(0, .getOrCreatePrefixBlock 7), (1, .getOrCreatePrefixBlock 7), (0, .cowTest 2),
    (1, .cowTest 2), (0, .cowPop), (1, .cowPop), (1, .cowCopy), (0, .cowCopy), (1, .cowDecRef),
    (0, .cowDecRef)]

theorem allocator_invariant_twoCopies :
    ∃ s, (machine ⟨1, 1, 1, 1, 3⟩ ℤ (Fin 2)).Run twoCopies s ∧ s.allocator.freeList = [2] ∧
      (s.allocator.pool 2).refCount = s.outstanding 2 := by
  obtain ⟨s, hs, hf⟩ : ∃ s, (machine ⟨1, 1, 1, 1, 3⟩ ℤ (Fin 2)).exec
      (machine ⟨1, 1, 1, 1, 3⟩ ℤ (Fin 2)).init twoCopies = some s ∧
      s.allocator.freeList = [2] := ⟨_, rfl, rfl⟩
  have hr := (Machine.run_iff_exec _).mpr hs
  exact ⟨s, hr, hf, (allocator_invariant ⟨_, hr⟩).2.2.1 2⟩

end ThreadSystem
end InferenceCluster
