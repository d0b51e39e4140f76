import InferenceCluster.Lib.Machine
import InferenceCluster.Spec.KvCache
import Mathlib.Algebra.BigOperators.Group.Finset.Basic
import Mathlib.Data.Fintype.Basic

/-! Any number of threads on one `BlockAllocator`. A step is one thread's next atomic
section; a thread inside `copy_on_write` has left the sections it has passed. -/

namespace InferenceCluster

/-- Where a thread stands inside `copy_on_write`. -/
inductive CowPoint (cfg : BlockConfig) where
  | tested (old : BlockId cfg)
  | popped (old new : BlockId cfg)
  | copied (old new : BlockId cfg)

/-- The handles a thread holds, less the one that its `copy_on_write` works on. -/
structure Thread (cfg : BlockConfig) where
  held : List (BlockId cfg)
  cow : Option (CowPoint cfg)

def CowPoint.handles {cfg : BlockConfig} : CowPoint cfg → List (BlockId cfg)
  | .tested old => [old]
  | .popped old new => [old, new]
  | .copied old new => [old, new]

def Thread.handles {cfg : BlockConfig} (t : Thread cfg) : List (BlockId cfg) :=
  t.held ++ (t.cow.map CowPoint.handles).getD []

inductive Section (cfg : BlockConfig) where
  | allocate
  | free (b : BlockId cfg)
  | getOrCreatePrefixBlock (prefixHash : ℤ)
  | cowTest (b : BlockId cfg)
  | cowPop
  | cowCopy
  | cowDecRef

structure ThreadSystem (cfg : BlockConfig) (α Tid : Type) where
  allocator : BlockAllocator cfg α
  threads : Tid → Thread cfg

namespace ThreadSystem

open BlockAllocator

variable {cfg : BlockConfig} {α Tid : Type}

/-- The number of outstanding handles on a block. -/
def outstanding [Fintype Tid] (s : ThreadSystem cfg α Tid) (b : BlockId cfg) : ℕ :=
  ∑ t, (s.threads t).handles.count b

/-- One atomic section of a thread: its effect on the allocator and on the thread. -/
def sectionStep (a : BlockAllocator cfg α) (t : Thread cfg) (i : Section cfg) :
    Option (BlockAllocator cfg α × Thread cfg) :=
  match t.cow, i with
  | none, .allocate =>
    match allocate a with
    | .ok b a => some (a, { t with held := b :: t.held })
    | .error _ a => some (a, t)
  | none, .free b =>
    if b ∈ t.held then some (a.decRef b, { t with held := t.held.erase b }) else none
  | none, .getOrCreatePrefixBlock h =>
    match getOrCreatePrefixBlock h a with
    | .ok (b, _) a => some (a, { t with held := b :: t.held })
    | .error _ a => some (a, t)
  | none, .cowTest b =>
    if b ∈ t.held then
      if a.notShared b then some (a, t) else some (a, ⟨t.held.erase b, some (.tested b)⟩)
    else none
  | some (.tested old), .cowPop =>
    match cowPop a with
    | .ok new a => some (a, { t with cow := some (.popped old new) })
    | .error _ a => some (a, ⟨old :: t.held, none⟩)
  | some (.popped old new), .cowCopy =>
    some (a.cowCopy new old, { t with cow := some (.copied old new) })
  | some (.copied old new), .cowDecRef => some (a.decRef old, ⟨new :: t.held, none⟩)
  | _, _ => none

def step [DecidableEq Tid] (s : ThreadSystem cfg α Tid) (i : Tid × Section cfg) :
    Option (ThreadSystem cfg α Tid) :=
  (sectionStep s.allocator (s.threads i.1) i.2).map fun r =>
    ⟨r.1, Function.update s.threads i.1 r.2⟩

/-- All threads start without handles on a new allocator. -/
def machine (cfg : BlockConfig) (α Tid : Type) [Zero α] [DecidableEq Tid] :
    Machine (ThreadSystem cfg α Tid) (Tid × Section cfg) :=
  ⟨⟨BlockAllocator.init cfg α, fun _ => ⟨[], none⟩⟩, step⟩

end ThreadSystem

end InferenceCluster
