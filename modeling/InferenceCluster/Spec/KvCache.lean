import InferenceCluster.Lib.PyDict
import Mathlib.Data.List.FinRange

/-! The block allocator of `core/kv_cache.py`. A `PhysicalBlock` object is named by its
index in the pool; a method that may raise runs in `EStateM`, which keeps the state at
the raise. Each `with self._lock` section is one definition, so that `copy_on_write`
is also available in the pieces between which it gives the lock up. -/

namespace InferenceCluster

structure BlockConfig where
  numLayers : ℕ
  numHeads : ℕ
  headDim : ℕ
  blockSize : ℕ := 16
  numBlocks : ℕ := 512

/-- A `[head_dim]` vector of the configured dtype. -/
abbrev Vec (cfg : BlockConfig) (α : Type) := Fin cfg.headDim → α

/-- A tensor of shape `(num_layers, num_heads, block_size, head_dim)`. -/
abbrev Slab (cfg : BlockConfig) (α : Type) :=
  Fin cfg.numLayers → Fin cfg.numHeads → Fin cfg.blockSize → Vec cfg α

abbrev BlockId (cfg : BlockConfig) := Fin cfg.numBlocks

structure PhysicalBlock (cfg : BlockConfig) (α : Type) where
  refCount : ℤ
  prefixHash : Option ℤ
  k : Slab cfg α
  v : Slab cfg α

/-- What a reader of a block sees: its K and its V. -/
structure Contents (cfg : BlockConfig) (α : Type) where
  k : Slab cfg α
  v : Slab cfg α

def PhysicalBlock.contents {cfg : BlockConfig} {α : Type} (block : PhysicalBlock cfg α) :
    Contents cfg α := ⟨block.k, block.v⟩

structure BlockAllocator (cfg : BlockConfig) (α : Type) where
  pool : BlockId cfg → PhysicalBlock cfg α
  freeList : List (BlockId cfg)
  prefixCache : PyDict ℤ (BlockId cfg)

structure MemoryError where
  message : String

/-- A method of the allocator. -/
abbrev AllocM (cfg : BlockConfig) (α : Type) := EStateM MemoryError (BlockAllocator cfg α)

namespace BlockAllocator

variable {cfg : BlockConfig} {α : Type}

def init (cfg : BlockConfig) (α : Type) [Zero α] : BlockAllocator cfg α where
  pool := fun _ => ⟨0, none, fun _ _ _ _ => 0, fun _ _ _ _ => 0⟩
  freeList := List.finRange cfg.numBlocks
  prefixCache := PyDict.empty

def setBlock (a : BlockAllocator cfg α) (b : BlockId cfg) (block : PhysicalBlock cfg α) :
    BlockAllocator cfg α := { a with pool := Function.update a.pool b block }

/-- The lines that `allocate`, a prefix miss and `copy_on_write` share: raise if the free
list is empty, else pop its last id and give that block one reference and a hash. -/
def popFree (message : String) (prefixHash : Option ℤ) : AllocM cfg α (BlockId cfg) := fun a =>
  match a.freeList.getLast? with
  | none => .error ⟨message⟩ a
  | some b =>
    .ok b { a.setBlock b { a.pool b with refCount := 1, prefixHash := prefixHash } with
      freeList := a.freeList.dropLast }

def allocate : AllocM cfg α (BlockId cfg) :=
  popFree ("KV cache exhausted: all " ++ toString cfg.numBlocks ++ " blocks in use.") none

/-- Drops one reference; the last one unregisters the block and returns it to the free
list. The body of `free` and of the last section of `copy_on_write`. -/
def decRef (a : BlockAllocator cfg α) (b : BlockId cfg) : BlockAllocator cfg α :=
  let block := { a.pool b with refCount := (a.pool b).refCount - 1 }
  if block.refCount = 0 then
    match block.prefixHash with
    | some h =>
      { a.setBlock b { block with prefixHash := none } with
        prefixCache := a.prefixCache.pop h
        freeList := a.freeList ++ [b] }
    | none => { a.setBlock b block with freeList := a.freeList ++ [b] }
  else a.setBlock b block

def free (b : BlockId cfg) : AllocM cfg α Unit := fun a => .ok () (a.decRef b)

def getOrCreatePrefixBlock (prefixHash : ℤ) : AllocM cfg α (BlockId cfg × Bool) := fun a =>
  match a.prefixCache.get? prefixHash with
  | some b => .ok (b, true) (a.setBlock b { a.pool b with refCount := (a.pool b).refCount + 1 })
  | none =>
    match popFree "KV cache exhausted" (some prefixHash) a with
    | .ok b a => .ok (b, false) { a with prefixCache := a.prefixCache.set prefixHash b }
    | .error e a => .error e a

/-! ### Copy on write, piece by piece -/

/-- The test before the lock is taken: `block.ref_count <= 1`. -/
def notShared (a : BlockAllocator cfg α) (b : BlockId cfg) : Bool := (a.pool b).refCount ≤ 1

def cowPop : AllocM cfg α (BlockId cfg) := popFree "KV cache exhausted during copy-on-write" none

/-- `new_block.k.copy_(block.k)` and `new_block.v.copy_(block.v)`. -/
def cowCopy (a : BlockAllocator cfg α) (new old : BlockId cfg) : BlockAllocator cfg α :=
  a.setBlock new { a.pool new with k := (a.pool old).k, v := (a.pool old).v }

def copyOnWrite (b : BlockId cfg) : AllocM cfg α (BlockId cfg) := do
  if (← get).notShared b then
    return b
  let new ← cowPop
  modify fun a => a.cowCopy new b
  modify fun a => a.decRef b
  return new

/-- Writes to K and V of a block, from what it holds; neither lock nor count is involved. -/
def overwrite (a : BlockAllocator cfg α) (b : BlockId cfg)
    (w : Contents cfg α → Contents cfg α) : BlockAllocator cfg α :=
  a.setBlock b { a.pool b with k := (w (a.pool b).contents).k, v := (w (a.pool b).contents).v }

end BlockAllocator

end InferenceCluster
