import InferenceCluster.Spec.PrefixSharing
import InferenceCluster.Proofs.PrivateCopies

/-! What later hits on a prefix see. `copy_on_write` hands a block with one reference back to
be written in place, also when its hash is still registered: after the other sharers have
left, the last one writes into the block that the next hit returns. -/

namespace InferenceCluster

variable {cfg : BlockConfig} {α : Type}

namespace BlockAllocator

theorem decRef_prefixCache (a : BlockAllocator cfg α) (b : BlockId cfg) (hash : ℤ) :
    (a.decRef b).prefixCache.get? hash = a.prefixCache.get? hash ∨
      (a.decRef b).prefixCache.get? hash = none := by
  unfold decRef
  simp only
  split_ifs with h0
  · cases (a.pool b).prefixHash with
    | none => exact .inl rfl
    | some h =>
      simp only [PyDict.get?_pop]
      split_ifs
      · exact .inr rfl
      · exact .inl rfl
  · exact .inl rfl

/-- A block with more references stays registered. -/
theorem decRef_prefixCache_of_shared {a : BlockAllocator cfg α} {b : BlockId cfg}
    (h : 1 < (a.pool b).refCount) : (a.decRef b).prefixCache = a.prefixCache := by
  unfold decRef
  simp only
  rw [if_neg (by omega)]
  rfl

/-- A call for another hash, or a hit, leaves a registered hash as it is. -/
theorem getOrCreatePrefixBlock_prefixCache {a a' : BlockAllocator cfg α} {h hash : ℤ}
    {b c : BlockId cfg} {hit : Bool} (hp : getOrCreatePrefixBlock h a = .ok (c, hit) a')
    (hr : a.prefixCache.get? hash = some b) : a'.prefixCache.get? hash = some b := by
  unfold getOrCreatePrefixBlock at hp
  split at hp
  · injection hp with _ ha
    rw [← ha]
    exact hr
  · rename_i hget
    split at hp
    · rename_i hpop
      injection hp with _ ha
      obtain ⟨rest, -, rfl⟩ := popFree_ok hpop
      have hne : hash ≠ h := by
        rintro rfl
        rw [hget] at hr
        cases hr
      rw [← ha, PyDict.get?_set, if_neg hne]
      exact hr
    · cases hp

end BlockAllocator

namespace Holders

open BlockAllocator

/-- A write to a block with one reference is a write in place, registered or not. -/
theorem step_write_of_notShared {s s' : Holders cfg α} {handle : ℕ} {b : BlockId cfg}
    {w : Contents cfg α → Contents cfg α} (hs : s.step (.write handle w) = some s')
    (hg : s.handles.get? handle = some b) (hns : s.allocator.notShared b = true) :
    s'.allocator.prefixCache = s.allocator.prefixCache ∧
      (s'.allocator.pool b).contents = w (s.allocator.pool b).contents := by
  have hc : copyOnWrite b s.allocator = .ok b s.allocator := by
    rw [copyOnWrite_eq, if_pos hns]
  simp only [step, hg, Option.map_some, hc, Option.some.injEq] at hs
  subst hs
  exact ⟨rfl, by simp [overwrite_contents]⟩

/-- Any other call leaves the contents of a registered block as they are, or unregisters the
hash. -/
theorem step_registered {s s' : Holders cfg α} (hI : s.Inv) {op : HolderOp cfg α}
    (hs : s.step op = some s') {hash : ℤ} {b : BlockId cfg}
    (hr : s.allocator.prefixCache.get? hash = some b)
    (hw : ∀ handle w, op = .write handle w → s.handles.get? handle = some b →
      s.allocator.notShared b = false) :
    s'.allocator.prefixCache.get? hash = none ∨
      s'.allocator.prefixCache.get? hash = some b ∧
        (s'.allocator.pool b).contents = (s.allocator.pool b).contents := by
  cases op with
  | allocate =>
    simp only [step] at hs
    split at hs <;> rename_i hp <;> obtain rfl := Option.some.inj hs
    · refine .inr ⟨?_, popFree_contents hp b⟩
      obtain ⟨rest, -, rfl⟩ := popFree_ok hp
      exact hr
    · obtain ⟨-, rfl⟩ := popFree_error hp
      exact .inr ⟨hr, rfl⟩
  | free handle =>
    obtain ⟨c, -, rfl⟩ := Option.map_eq_some_iff.mp hs
    rcases s.allocator.decRef_prefixCache c hash with h | h
    · exact .inr ⟨h.trans hr, s.allocator.decRef_contents c b⟩
    · exact .inl h
  | getOrCreatePrefixBlock h =>
    simp only [step] at hs
    split at hs <;> rename_i hp <;> obtain rfl := Option.some.inj hs
    · exact .inr ⟨getOrCreatePrefixBlock_prefixCache hp hr, getOrCreatePrefixBlock_contents hp b⟩
    · obtain ⟨-, -, rfl⟩ := getOrCreatePrefixBlock_error hp
      exact .inr ⟨hr, rfl⟩
  | write handle w =>
    obtain ⟨c, hg, hs⟩ := Option.map_eq_some_iff.mp hs
    split at hs <;> rename_i hp <;> subst hs
    · rename_i new a
      rcases copyOnWrite_ok hp with ⟨hns, rfl, rfl⟩ | ⟨hns, a₁, hpop, rfl⟩
      · -- in place, into another block
        have hb : b ≠ new := by
          rintro rfl
          rw [hw handle w rfl hg] at hns
          cases hns
        exact .inr ⟨hr, by rw [overwrite_contents, if_neg hb]⟩
      · -- into a copy, which is not registered; the old block keeps a reference
        obtain ⟨rest, hl, ha₁⟩ := popFree_ok hpop
        have hb : b ≠ new := by
          rintro rfl
          have hfree := hI.valid.prefixHash_of_free (b := b) (by simp [hl])
          rw [(hI.valid.prefix_iff hash b).mp hr] at hfree
          cases hfree
        have hc : c ≠ new := fun he => not_held_of_free hI (b := new) (by simp [hl]) handle (he ▸ hg)
        have hshared : 1 < ((a₁.cowCopy new c).pool c).refCount := by
          simpa [notShared, cowCopy, ha₁, hc] using hns
        refine .inr ⟨?_, by rw [overwrite_contents, if_neg hb, cow_contents hp, if_neg hb]⟩
        have hpc : (((a₁.cowCopy new c).decRef c).overwrite new w).prefixCache = a₁.prefixCache :=
          decRef_prefixCache_of_shared hshared
        rw [hpc, ha₁]
        exact hr
    · obtain ⟨-, -, rfl⟩ := copyOnWrite_error hp
      exact .inr ⟨hr, rfl⟩

end Holders

namespace SharedPrefix

variable {hash : ℤ}

/-- A hit now would see what the first hit saw. -/
def Stable (hash : ℤ) (s : SharedPrefix cfg α) : Prop :=
  ∀ c, s.firstHit = some c → s.registered hash = some c

/-- The call writes other contents in place into the block that the hash, hit before, is
registered for. -/
def Spoils (hash : ℤ) (s : SharedPrefix cfg α) : PrefixOp cfg α → Prop
  | .call (.write handle w) => ∃ b c, s.holders.handles.get? handle = some b ∧
      s.holders.allocator.prefixCache.get? hash = some b ∧
      s.holders.allocator.notShared b = true ∧ s.firstHit = some c ∧ w c ≠ c
  | _ => False

theorem stepHolders_inv {s : SharedPrefix cfg α} (hI : s.holders.Inv) {op : PrefixOp cfg α}
    {holders : Holders cfg α} (hs : s.stepHolders op = some holders) : holders.Inv := by
  cases op with
  | call op => exact Holders.step_inv hI hs
  | fill handle w =>
    obtain ⟨b, hg, rfl⟩ := Option.map_eq_some_iff.mp hs
    exact ⟨hI.valid.overwrite (PyDict.count_values_pos hg) w, hI.fresh⟩

theorem inv_of_run [Zero α] {ops : List (PrefixOp cfg α)} {s : SharedPrefix cfg α}
    (h : (machine hash cfg α).Run ops s) : s.holders.Inv := by
  refine Machine.Reachable.invariant (I := fun s => s.holders.Inv) (Holders.inv_init cfg α)
    (fun s op s' hI hs => ?_) ⟨ops, h⟩
  obtain ⟨holders, hstep, rfl⟩ := Option.map_eq_some_iff.mp hs
  exact stepHolders_inv hI hstep

theorem registered_eq_some {s : SharedPrefix cfg α} {c : Contents cfg α} :
    s.registered hash = some c ↔ ∃ b, s.holders.allocator.prefixCache.get? hash = some b ∧
      (s.holders.allocator.pool b).contents = c :=
  Option.map_eq_some_iff

/-- A call that does not write in place into the registered block leaves what the hash is
registered with, as long as it stays registered. -/
theorem registered_step {s : SharedPrefix cfg α} (hI : s.holders.Inv) {op : HolderOp cfg α}
    {holders : Holders cfg α} (hs : s.holders.step op = some holders) {b : BlockId cfg}
    (hr : s.holders.allocator.prefixCache.get? hash = some b)
    (hw : ∀ handle w, op = .write handle w → s.holders.handles.get? handle = some b →
      s.holders.allocator.notShared b = false)
    (hreg : holders.allocator.prefixCache.contains hash = true)
    (firstHit : Option (Contents cfg α)) :
    (⟨holders, firstHit⟩ : SharedPrefix cfg α).registered hash =
      some (s.holders.allocator.pool b).contents := by
  rcases Holders.step_registered hI hs hr hw with hnone | ⟨hr', hkeep⟩
  · rw [PyDict.contains, hnone] at hreg
    cases hreg
  · exact registered_eq_some.mpr ⟨b, hr', hkeep⟩

/-- Only a call for the hash can be its first hit. -/
theorem hit_eq_some {s : SharedPrefix cfg α} {op : PrefixOp cfg α} {c : Contents cfg α}
    (h : s.hit hash op = some c) :
    op = .call (.getOrCreatePrefixBlock hash) ∧ s.registered hash = some c := by
  rcases op with (_ | handle | h' | ⟨handle, w⟩) | ⟨handle, w⟩ <;> simp only [hit] at h
  all_goals try cases h
  split_ifs at h with hh
  exact ⟨hh ▸ rfl, h⟩

/-- The step that is the first hit, or comes before it. -/
theorem stable_of_firstHit_none {s s' : SharedPrefix cfg α} (hI : s.holders.Inv)
    (hf : s.firstHit = none) {op : PrefixOp cfg α} (hs : s.step hash op = some s') :
    s'.Stable hash := by
  obtain ⟨holders, hcall, rfl⟩ := Option.map_eq_some_iff.mp hs
  intro c hc
  simp only [hf, Option.none_or] at hc
  split_ifs at hc with hreg
  obtain ⟨rfl, hseen⟩ := hit_eq_some hc
  obtain ⟨b, hr, rfl⟩ := registered_eq_some.mp hseen
  have hget : s.holders.step (.getOrCreatePrefixBlock hash) = some holders := hcall
  exact registered_step hI hget hr (by rintro _ _ ⟨⟩) hreg _

/-- A call keeps what later hits see exactly when it does not spoil the block. -/
theorem step_stable_iff {s s' : SharedPrefix cfg α} (hI : s.holders.Inv) (hS : s.Stable hash)
    {op : PrefixOp cfg α} (hok : s.allowed op = true) (hs : s.step hash op = some s') :
    s'.Stable hash ↔ ¬s.Spoils hash op := by
  cases hf : s.firstHit with
  | none =>
    refine iff_of_true (stable_of_firstHit_none hI hf hs) ?_
    cases op with
    | fill handle w => exact id
    | call op => cases op <;> simp [Spoils, hf]
  | some c =>
    obtain ⟨holders, hcall, rfl⟩ := Option.map_eq_some_iff.mp hs
    obtain ⟨b, hr, hb⟩ := registered_eq_some.mp (hS c hf)
    cases op with
    | fill handle w => simp [allowed, hf] at hok
    | call op =>
      by_cases hplace : ∃ handle w, op = .write handle w ∧ s.holders.handles.get? handle = some b ∧
          s.holders.allocator.notShared b = true
      · obtain ⟨handle, w, rfl, hg, hns⟩ := hplace
        obtain ⟨hpc, hc'⟩ := Holders.step_write_of_notShared hcall hg hns
        have hstable : Stable hash (⟨holders, some c⟩ : SharedPrefix cfg α) ↔ w c = c := by
          simp [Stable, registered, hpc, hr, hc', hb]
        have hspoils : s.Spoils hash (.call (.write handle w)) ↔ w c ≠ c := by
          simp [Spoils, hg, hr, hns, hf]
        rw [hspoils, not_not, ← hstable]
        simp [hf, hpc, PyDict.contains, hr]
      · have hno : ¬s.Spoils hash (.call op) := by
          intro hsp
          cases op with
          | write handle w =>
            obtain ⟨b', -, hg, hr', hns, -⟩ := hsp
            obtain rfl := Option.some.inj (hr.symm.trans hr')
            exact hplace ⟨handle, w, rfl, hg, hns⟩
          | _ => exact hsp
        have hw : ∀ handle w, op = .write handle w → s.holders.handles.get? handle = some b →
            s.holders.allocator.notShared b = false := fun handle w he hg =>
          Bool.eq_false_of_not_eq_true fun hns => hplace ⟨handle, w, he, hg, hns⟩
        refine iff_of_true (fun c' hc' => ?_) hno
        simp only [hf, Option.some_or] at hc'
        split_ifs at hc' with hreg
        obtain rfl := Option.some.inj hc'
        rw [registered_step hI hcall hr hw hreg, hb]

/-- Hits see what the first hit saw exactly in the runs in which nobody writes in place into
the registered block after that hit. -/
theorem prefix_stable_iff [Zero α] {ops : List (PrefixOp cfg α)} {s : SharedPrefix cfg α}
    (h : (machine hash cfg α).Run ops s)
    (hok : (machine hash cfg α).Meets (fun s op => s.allowed op) ops) :
    (∀ js t, js <+: ops → (machine hash cfg α).Run js t → t.Stable hash) ↔
      (machine hash cfg α).Meets (fun s op => ¬s.Spoils hash op) ops := by
  refine Machine.Run.invariant_iff_meets (fun c hc => by cases hc) ?_ h
  intro js s op s' hp hr hS hs
  exact step_stable_iff (inv_of_run hr) hS (hok js op hp s hr) hs

/-- One holder fills the prefix block, a second one hits it, the first one leaves, and the
second one writes. -/
def lastSharer : List (PrefixOp ⟨1, 1, 1, 1, 2⟩ ℤ) :=
  let set (x : ℤ) : Contents ⟨1, 1, 1, 1, 2⟩ ℤ → Contents ⟨1, 1, 1, 1, 2⟩ ℤ :=
    fun _ => ⟨fun _ _ _ _ => x, fun _ _ _ _ => x⟩
  [.call (.getOrCreatePrefixBlock 7), .fill 0 (set 5), .call (.getOrCreatePrefixBlock 7),
    .call (.free 0), .call (.write 1 (set 9)), .call (.getOrCreatePrefixBlock 7)]

/-- Up to the write, hits see the same. -/
theorem prefix_stable_iff_lastSharer : ∃ s,
    (machine 7 ⟨1, 1, 1, 1, 2⟩ ℤ).Run (lastSharer.take 4) s ∧ s.Stable 7 := by
  have h : (machine 7 ⟨1, 1, 1, 1, 2⟩ ℤ).Run (lastSharer.take 4) _ := (Machine.run_iff_exec _).mpr rfl
  have hok : (machine 7 ⟨1, 1, 1, 1, 2⟩ ℤ).Meets (fun s op => s.allowed op) (lastSharer.take 4) :=
    Machine.meets_of_checks _ (by decide)
  refine ⟨_, h, (prefix_stable_iff h hok).mpr (fun js op hp s _ => ?_) _ _ List.prefix_rfl h⟩
  have hop : op ∈ lastSharer.take 4 := hp.subset (by simp)
  simp only [lastSharer, List.take_succ_cons, List.take_zero, List.mem_cons, List.not_mem_nil,
    or_false] at hop
  rcases hop with rfl | rfl | rfl | rfl <;> exact id

/-- The next hit sees 9 where the first one saw 5. -/
theorem lastSharer_spoils :
    (machine 7 ⟨1, 1, 1, 1, 2⟩ ℤ).Meets (fun s op => s.allowed op) lastSharer ∧
    ∃ s, (machine 7 ⟨1, 1, 1, 1, 2⟩ ℤ).Run lastSharer s ∧
      s.firstHit.map (fun c => c.k 0 0 0 0) = some 5 ∧
      (s.holders.read 2).map (fun c => c.k 0 0 0 0) = some 9 :=
  ⟨Machine.meets_of_checks _ (by decide), _, (Machine.run_iff_exec _).mpr rfl, rfl, rfl⟩

end SharedPrefix
end InferenceCluster
