import InferenceCluster.Spec.Holders
import InferenceCluster.Sanity.Contents

/-! Shared, counted and recycled blocks look to their holders like private values. The
proof rests on one fact: the block that `copy_on_write` returns is held by nobody but
the writer. -/

namespace InferenceCluster

variable {cfg : BlockConfig} {α : Type}

/-- The handle whose value a reference step changes. -/
def ValueOp.target : ValueOp cfg α → Option ℕ
  | .create handle _ => some handle
  | .drop handle => some handle
  | .write handle _ => some handle
  | .fail => none

theorem ValueOp.step_frame {vals vals' : ℕ → Option (Contents cfg α)} {op : ValueOp cfg α}
    (hs : op.step vals = some vals') {handle : ℕ} (hne : op.target ≠ some handle) :
    vals' handle = vals handle := by
  have hupd : ∀ k x, some k ≠ some handle → Function.update vals k x = vals' →
      vals' handle = vals handle := by
    rintro k x hk rfl
    exact Function.update_of_ne (fun he => hk (congrArg some he.symm)) _ _
  cases op with
  | create k x => exact hupd k _ hne (Option.some.inj hs)
  | drop k => exact hupd k _ hne (Option.some.inj hs)
  | write k w => exact hupd k _ hne (Option.some.inj hs)
  | fail => rw [Option.some.inj hs]

namespace Holders

open BlockAllocator

/-- The counts are exact, and handles not yet handed out are not held. -/
structure Inv (s : Holders cfg α) : Prop where
  valid : s.allocator.Valid fun b => s.handles.values.count b
  fresh : ∀ handle b, s.handles.get? handle = some b → handle < s.next

/-! ### One `copy_on_write` of a held handle -/

theorem not_held_of_free {s : Holders cfg α} (hI : s.Inv) {b : BlockId cfg}
    (hb : b ∈ s.allocator.freeList) (handle : ℕ) : s.handles.get? handle ≠ some b := by
  intro hg
  have h0 := (hI.valid.held_of_free b).mpr hb
  have h1 := PyDict.count_values_pos hg
  omega

/-- The block that `copy_on_write` returns is held through the writer's handle at most. -/
theorem cow_exclusive {s : Holders cfg α} (hI : s.Inv) {handle : ℕ} {b new : BlockId cfg}
    {a : BlockAllocator cfg α} (hg : s.handles.get? handle = some b)
    (hc : copyOnWrite b s.allocator = .ok new a) {other : ℕ} (ho : other ≠ handle) :
    s.handles.get? other ≠ some new := by
  rcases copyOnWrite_ok hc with ⟨hs, rfl, -⟩ | ⟨-, a₁, hp, -⟩
  · intro hg'
    have hcount := hI.valid.count new
    have hpos := PyDict.count_values_pos hg
    have hle : (s.allocator.pool new).refCount ≤ 1 := of_decide_eq_true hs
    exact ho (PyDict.key_eq_of_count_eq_one hg hg' (by omega))
  · obtain ⟨rest, hr, -⟩ := popFree_ok hp
    exact not_held_of_free hI (by simp [hr]) other

theorem cow_valid {s : Holders cfg α} (hI : s.Inv) {handle : ℕ} {b new : BlockId cfg}
    {a : BlockAllocator cfg α} (hg : s.handles.get? handle = some b)
    (hc : copyOnWrite b s.allocator = .ok new a) :
    a.Valid fun c => (s.handles.set handle new).values.count c := by
  simp only [PyDict.count_values_set]
  rcases copyOnWrite_ok hc with ⟨-, rfl, rfl⟩ | ⟨hs, a₁, hp, rfl⟩
  · simpa only [← PyDict.count_values_pop hg] using hI.valid
  · have v₁ := hI.valid.popFree hp fun c => rfl
    have v₂ : (a₁.cowCopy new b).Valid _ := v₁.cowCopy (by simp)
    refine v₂.decRef fun c => ?_
    rw [PyDict.count_values_pop hg c]
    omega

theorem cow_contents {a a' : BlockAllocator cfg α} {b new : BlockId cfg}
    (hc : copyOnWrite b a = .ok new a') (c : BlockId cfg) :
    (a'.pool c).contents = if c = new then (a.pool b).contents else (a.pool c).contents := by
  rcases copyOnWrite_ok hc with ⟨-, rfl, rfl⟩ | ⟨-, a₁, hp, rfl⟩
  · split_ifs with h
    · rw [h]
    · rfl
  · rw [decRef_contents, cowCopy_contents, popFree_contents hp, popFree_contents hp]

/-- A `copy_on_write` alone changes the contents of no handle. -/
theorem cow_contents_held {s : Holders cfg α} (hI : s.Inv) {handle : ℕ} {b new : BlockId cfg}
    {a : BlockAllocator cfg α} (hg : s.handles.get? handle = some b)
    (hc : copyOnWrite b s.allocator = .ok new a) {other : ℕ} {c : BlockId cfg}
    (hg' : s.handles.get? other = some c) :
    (a.pool c).contents = (s.allocator.pool c).contents := by
  rw [cow_contents hc]
  split_ifs with hcn
  · by_cases ho : other = handle
    · rw [ho, hg] at hg'
      rw [Option.some.inj hg']
    · exact absurd (hcn ▸ hg') (cow_exclusive hI hg hc ho)
  · rfl

/-! ### The invariant -/

theorem inv_init (cfg : BlockConfig) (α : Type) [Zero α] : (machine cfg α).init.Inv := by
  refine ⟨?_, fun handle b h => ?_⟩
  · exact valid_init cfg α
  · simp [machine] at h

theorem addHandle_inv {s : Holders cfg α} (hI : s.Inv) {a : BlockAllocator cfg α} {b : BlockId cfg}
    (v : a.Valid fun c => s.handles.values.count c + if c = b then 1 else 0) :
    (s.addHandle a b).Inv := by
  have hnew : s.handles.get? s.next = none := by
    by_contra hne
    obtain ⟨c, hc⟩ := Option.ne_none_iff_exists'.mp hne
    exact lt_irrefl _ (hI.fresh _ c hc)
  refine ⟨?_, fun handle c h => ?_⟩
  · simpa only [addHandle, PyDict.values, PyDict.items_set_of_get?_none b hnew, List.map_append,
      List.count_append, List.map_cons, List.map_nil, List.count_singleton, beq_iff_eq,
      @eq_comm _ b] using v
  · simp only [addHandle, PyDict.get?_set] at h ⊢
    split_ifs at h with heq
    · omega
    · have := hI.fresh handle c h
      omega

theorem step_inv {s s' : Holders cfg α} {op : HolderOp cfg α} (hI : s.Inv)
    (hs : s.step op = some s') : s'.Inv := by
  cases op with
  | allocate =>
    simp only [step] at hs
    split at hs <;> rename_i hp <;> obtain rfl := Option.some.inj hs
    · exact addHandle_inv hI (hI.valid.allocate hp fun c => rfl)
    · obtain ⟨-, rfl⟩ := popFree_error hp
      exact hI
  | free handle =>
    obtain ⟨b, hg, rfl⟩ := Option.map_eq_some_iff.mp hs
    refine ⟨hI.valid.decRef fun c => PyDict.count_values_pop hg c, fun h c hc => ?_⟩
    rw [PyDict.get?_pop] at hc
    split_ifs at hc
    exact hI.fresh h c hc
  | getOrCreatePrefixBlock h =>
    simp only [step] at hs
    split at hs <;> rename_i hp <;> obtain rfl := Option.some.inj hs
    · exact addHandle_inv hI (hI.valid.getOrCreatePrefixBlock hp fun c => rfl)
    · obtain ⟨-, -, rfl⟩ := getOrCreatePrefixBlock_error hp
      exact hI
  | write handle w =>
    obtain ⟨b, hg, hs⟩ := Option.map_eq_some_iff.mp hs
    split at hs <;> rename_i hp <;> subst hs
    · refine ⟨(cow_valid hI hg hp).overwrite (PyDict.count_values_pos (PyDict.get?_set_self _ _ _)) w,
        fun h c hc => ?_⟩
      rw [PyDict.get?_set] at hc
      split_ifs at hc with heq
      · exact hI.fresh h b (heq ▸ hg)
      · exact hI.fresh h c hc
    · obtain ⟨-, -, rfl⟩ := copyOnWrite_error hp
      exact hI

theorem reachable_inv [Zero α] {s : Holders cfg α} (h : (machine cfg α).Reachable s) : s.Inv :=
  Machine.Reachable.invariant (I := Inv) (inv_init cfg α) (fun _ _ _ hI hs => step_inv hI hs) h

/-! ### The simulation -/

theorem read_addHandle {s : Holders cfg α} {a : BlockAllocator cfg α}
    (ha : ∀ c, (a.pool c).contents = (s.allocator.pool c).contents) (b : BlockId cfg) :
    (s.addHandle a b).read = Function.update s.read s.next (some (s.allocator.pool b).contents) := by
  funext handle
  simp only [read, addHandle, PyDict.get?_set, Function.update_apply, ha]
  split_ifs <;> rfl

theorem step_observe {s s' : Holders cfg α} {op : HolderOp cfg α} (hI : s.Inv)
    (hs : s.step op = some s') : ValueOp.step s.read (s.observe op) = some s'.read := by
  cases op with
  | allocate =>
    simp only [step] at hs
    split at hs <;> rename_i hp <;> obtain rfl := Option.some.inj hs
    · obtain ⟨rest, hr, -⟩ := popFree_ok hp
      rw [read_addHandle (popFree_contents hp)]
      simp [observe, hr, ValueOp.step]
    · obtain ⟨hf, rfl⟩ := popFree_error hp
      simp [observe, hf, ValueOp.step]
  | free handle =>
    obtain ⟨b, hg, rfl⟩ := Option.map_eq_some_iff.mp hs
    simp only [observe, ValueOp.step, Option.some.injEq]
    funext h
    simp only [read, PyDict.get?_pop, Function.update_apply, decRef_contents]
    split_ifs <;> rfl
  | getOrCreatePrefixBlock h =>
    simp only [step] at hs
    split at hs <;> rename_i hp <;> obtain rfl := Option.some.inj hs
    · rw [read_addHandle (getOrCreatePrefixBlock_contents hp)]
      simp [observe, getOrCreatePrefixBlock_source hp, ValueOp.step]
    · obtain ⟨hn, hf, rfl⟩ := getOrCreatePrefixBlock_error hp
      simp [observe, hn, hf, ValueOp.step]
  | write handle w =>
    obtain ⟨b, hg, hs⟩ := Option.map_eq_some_iff.mp hs
    split at hs <;> rename_i hp <;> subst hs
    · rename_i new a
      have hfail : ¬(s.allocator.freeList = [] ∧
          (s.handles.get? handle).any fun b => !s.allocator.notShared b) := by
        rintro ⟨hf, hsh⟩
        rcases copyOnWrite_ok hp with ⟨hns, -, -⟩ | ⟨-, a₁, hpop, -⟩
        · simp [hg, hns] at hsh
        · obtain ⟨rest, hr, -⟩ := popFree_ok hpop
          simp [hf] at hr
      simp only [observe, if_neg hfail, ValueOp.step, Option.some.injEq]
      funext other
      simp only [read, PyDict.get?_set, Function.update_apply]
      by_cases ho : other = handle
      · simp [ho, hg, overwrite_contents, cow_contents hp]
      · rw [if_neg ho, if_neg ho]
        cases hg' : s.handles.get? other with
        | none => rfl
        | some c =>
          have hne : c ≠ new := fun hcn => cow_exclusive hI hg hp ho (hcn ▸ hg')
          simp [overwrite_contents, cow_contents hp, hne]
    · obtain ⟨hsh, hf, rfl⟩ := copyOnWrite_error hp
      simp [observe, hf, hg, hsh, ValueOp.step]

/-! ### What holders see -/

theorem observe_target {s : Holders cfg α} {op : HolderOp cfg α} {handle : ℕ}
    (h : (s.observe op).target = some handle) : handle = s.next ∨ op.subject = some handle := by
  cases op with
  | allocate =>
    simp only [observe] at h
    cases hl : s.allocator.freeList.getLast? <;>
      simp only [hl, Option.map_none, Option.map_some, Option.getD_none, Option.getD_some,
        ValueOp.target, Option.some.injEq, reduceCtorEq] at h
    exact .inl h.symm
  | free k => exact .inr h
  | getOrCreatePrefixBlock k =>
    simp only [observe] at h
    cases hl : (s.allocator.prefixCache.get? k).or s.allocator.freeList.getLast? <;>
      simp only [hl, Option.map_none, Option.map_some, Option.getD_none, Option.getD_some,
        ValueOp.target, Option.some.injEq, reduceCtorEq] at h
    exact .inl h.symm
  | write k w =>
    simp only [observe] at h
    split_ifs at h
    · cases h
    · exact .inr h

/-- No call changes what a held handle reads, unless it is a call on that very handle. -/
theorem step_read_frame {s s' : Holders cfg α} {op : HolderOp cfg α} (hI : s.Inv)
    (hs : s.step op = some s') {handle : ℕ} {b : BlockId cfg} (hg : s.handles.get? handle = some b)
    (hne : op.subject ≠ some handle) : s'.read handle = s.read handle := by
  refine ValueOp.step_frame (step_observe hI hs) fun ht => ?_
  rcases observe_target ht with heq | hsub
  · exact (hI.fresh handle b hg).ne heq
  · exact hne hsub

/-- A registered block is held by somebody, so that what a hit copies is the value of a
handle. -/
theorem registered_held {s : Holders cfg α} (hI : s.Inv) {h : ℤ} {b : BlockId cfg}
    (hr : s.allocator.prefixCache.get? h = some b) :
    ∃ handle, s.handles.get? handle = some b := by
  have h1 := hI.valid.registered h b hr
  rw [hI.valid.count] at h1
  exact (s.handles.mem_values_iff b).mp (List.count_pos_iff.mp (by exact_mod_cast h1))

/-- Every run shows its holders the private values of the reference run. Moreover, in
every state it reaches, a call changes what no other holder reads, `copy_on_write` alone
changes nothing that is read and its result reads like the old block, and a registered
block is held. -/
theorem private_copies [Zero α] {ops : List (HolderOp cfg α)} {s : Holders cfg α}
    (h : (machine cfg α).Run ops s) :
    (privateValues cfg α).Run ((machine cfg α).relabel observe (machine cfg α).init ops) s.read ∧
    (∀ op s' handle, s.step op = some s' → s.handles.contains handle = true →
      op.subject ≠ some handle → s'.read handle = s.read handle) ∧
    (∀ handle b new a, s.handles.get? handle = some b → copyOnWrite b s.allocator = .ok new a →
      (∀ other, Holders.read { s with allocator := a } other = s.read other) ∧
      (a.pool new).contents = (s.allocator.pool b).contents) ∧
    ∀ hash b, s.allocator.prefixCache.get? hash = some b →
      ∃ handle, s.handles.get? handle = some b := by
  have hI := reachable_inv ⟨ops, h⟩
  refine ⟨?_, ?_, ?_, ?_⟩
  · obtain ⟨vals, hrun, rfl⟩ := h.simulates (R := fun s vals => s.read = vals) (n := privateValues cfg α)
      observe rfl
      (fun s t op s' hr hR hs => ⟨s'.read, hR ▸ step_observe (reachable_inv hr) hs, rfl⟩)
    exact hrun
  · intro op s' handle hs hc hne
    obtain ⟨b, hg⟩ := (s.handles.contains_iff handle).mp hc
    exact step_read_frame hI hs hg hne
  · intro handle b new a hg hc
    refine ⟨fun other => ?_, by rw [cow_contents hc, if_pos rfl]⟩
    unfold read
    cases hg' : s.handles.get? other with
    | none => rfl
    | some c => simp [cow_contents_held hI hg hc hg']
  · intro hash b hr
    exact registered_held hI hr

/-- Two holders share block 2 through a prefix hit; the second one then writes. -/
def hitThenWrite : List (HolderOp ⟨1, 1, 1, 1, 3⟩ ℤ) :=
  [.getOrCreatePrefixBlock 7, .write 0 fun _ => ⟨fun _ _ _ _ => 5, fun _ _ _ _ => 6⟩,
    .getOrCreatePrefixBlock 7, .write 1 fun _ => ⟨fun _ _ _ _ => 8, fun _ _ _ _ => 9⟩]

theorem private_copies_hitThenWrite :
    ∃ s, (machine ⟨1, 1, 1, 1, 3⟩ ℤ).Run hitThenWrite s ∧
      (s.read 0).map (fun c => c.k 0 0 0 0) = some 5 ∧
      (s.read 1).map (fun c => c.k 0 0 0 0) = some 8 ∧
      (privateValues ⟨1, 1, 1, 1, 3⟩ ℤ).Run ((machine ⟨1, 1, 1, 1, 3⟩ ℤ).relabel observe
        (machine ⟨1, 1, 1, 1, 3⟩ ℤ).init hitThenWrite) s.read := by
  obtain ⟨s, hs, h0, h1⟩ : ∃ s, (machine ⟨1, 1, 1, 1, 3⟩ ℤ).exec
      (machine ⟨1, 1, 1, 1, 3⟩ ℤ).init hitThenWrite = some s ∧
      (s.read 0).map (fun c => c.k 0 0 0 0) = some 5 ∧
      (s.read 1).map (fun c => c.k 0 0 0 0) = some 8 := ⟨_, rfl, rfl, rfl⟩
  have hr := (Machine.run_iff_exec _).mpr hs
  exact ⟨s, hr, h0, h1, (private_copies hr).1⟩

end Holders
end InferenceCluster
