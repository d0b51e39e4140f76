import InferenceCluster.Lib.Machine
import InferenceCluster.Spec.KvCache

/-! Sequential use of one allocator by any number of holders, and what it is meant to
look like from outside: every handle has a value of its own. -/

namespace InferenceCluster

/-- Handles are numbered in the order in which they are created. -/
structure Holders (cfg : BlockConfig) (α : Type) where
  allocator : BlockAllocator cfg α
  next : ℕ
  handles : PyDict ℕ (BlockId cfg)

inductive HolderOp (cfg : BlockConfig) (α : Type) where
  | allocate
  | free (handle : ℕ)
  | getOrCreatePrefixBlock (prefixHash : ℤ)
  | write (handle : ℕ) (w : Contents cfg α → Contents cfg α)

/-- The handle that a call may change. -/
def HolderOp.subject {cfg : BlockConfig} {α : Type} : HolderOp cfg α → Option ℕ
  | .allocate => none
  | .free handle => some handle
  | .getOrCreatePrefixBlock _ => none
  | .write handle _ => some handle

namespace Holders

open BlockAllocator

variable {cfg : BlockConfig} {α : Type}

/-- What a handle reads. -/
def read (s : Holders cfg α) (handle : ℕ) : Option (Contents cfg α) :=
  (s.handles.get? handle).map fun b => (s.allocator.pool b).contents

def addHandle (s : Holders cfg α) (a : BlockAllocator cfg α) (b : BlockId cfg) : Holders cfg α :=
  ⟨a, s.next + 1, s.handles.set s.next b⟩

/-- One call; a call that raises ends in the state at the raise, and calls on a handle
that is not held are not made. A `write` replaces the handle's block by the one that
`copy_on_write` returns and overwrites that one. -/
def step (s : Holders cfg α) : HolderOp cfg α → Option (Holders cfg α)
  | .allocate =>
    match allocate s.allocator with
    | .ok b a => some (s.addHandle a b)
    | .error _ a => some { s with allocator := a }
  | .free handle =>
    (s.handles.get? handle).map fun b =>
      { s with allocator := s.allocator.decRef b, handles := s.handles.pop handle }
  | .getOrCreatePrefixBlock h =>
    match getOrCreatePrefixBlock h s.allocator with
    | .ok (b, _) a => some (s.addHandle a b)
    | .error _ a => some { s with allocator := a }
  | .write handle w =>
    (s.handles.get? handle).map fun b =>
      match copyOnWrite b s.allocator with
      | .ok new a =>
        { s with allocator := a.overwrite new w, handles := s.handles.set handle new }
      | .error _ a => { s with allocator := a }

def machine (cfg : BlockConfig) (α : Type) [Zero α] : Machine (Holders cfg α) (HolderOp cfg α) :=
  ⟨⟨BlockAllocator.init cfg α, 0, PyDict.empty⟩, step⟩

end Holders

/-! ### The reference: private values -/

inductive ValueOp (cfg : BlockConfig) (α : Type) where
  | create (handle : ℕ) (value : Contents cfg α)
  | drop (handle : ℕ)
  | write (handle : ℕ) (w : Contents cfg α → Contents cfg α)
  | fail

/-- Each handle owns a value; no operation looks at another handle's. -/
def ValueOp.step {cfg : BlockConfig} {α : Type} (vals : ℕ → Option (Contents cfg α)) :
    ValueOp cfg α → Option (ℕ → Option (Contents cfg α))
  | .create handle value => some (Function.update vals handle (some value))
  | .drop handle => some (Function.update vals handle none)
  | .write handle w => some (Function.update vals handle ((vals handle).map w))
  | .fail => some vals

def privateValues (cfg : BlockConfig) (α : Type) :
    Machine (ℕ → Option (Contents cfg α)) (ValueOp cfg α) := ⟨fun _ => none, ValueOp.step⟩

/-- What a call means for private values: `allocate` and a prefix miss create a handle
with what the recycled block holds, a hit creates one with what the registered block
holds, and a call that raises does nothing. -/
def Holders.observe {cfg : BlockConfig} {α : Type} (s : Holders cfg α) :
    HolderOp cfg α → ValueOp cfg α
  | .allocate => (s.allocator.freeList.getLast?.map fun b =>
      .create s.next (s.allocator.pool b).contents).getD .fail
  | .free handle => .drop handle
  | .getOrCreatePrefixBlock h =>
    (((s.allocator.prefixCache.get? h).or s.allocator.freeList.getLast?).map fun b =>
      .create s.next (s.allocator.pool b).contents).getD .fail
  | .write handle w =>
    if s.allocator.freeList = [] ∧
        (s.handles.get? handle).any fun b => !s.allocator.notShared b then .fail
    else .write handle w

end InferenceCluster
