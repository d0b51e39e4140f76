import InferenceCluster.Spec.Holders

/-! Holders that fill a prefix block before it is shared. Beside the calls of `Holders` there
are writes without `copy_on_write`; one prefix hash is watched. -/

namespace InferenceCluster

variable {cfg : BlockConfig} {α : Type}

inductive PrefixOp (cfg : BlockConfig) (α : Type) where
  | call (op : HolderOp cfg α)
  | fill (handle : ℕ) (w : Contents cfg α → Contents cfg α)

/-- The holders, and what the first hit on the watched hash saw, as long as the hash stays
registered. -/
structure SharedPrefix (cfg : BlockConfig) (α : Type) where
  holders : Holders cfg α
  firstHit : Option (Contents cfg α) := none

namespace SharedPrefix

variable (hash : ℤ)

/-- What a hit on the hash returns. -/
def registered (s : SharedPrefix cfg α) : Option (Contents cfg α) :=
  (s.holders.allocator.prefixCache.get? hash).map fun b => (s.holders.allocator.pool b).contents

/-- What the call sees if it is a hit on the hash. -/
def hit (s : SharedPrefix cfg α) : PrefixOp cfg α → Option (Contents cfg α)
  | .call (.getOrCreatePrefixBlock h) => if h = hash then s.registered hash else none
  | _ => none

def stepHolders (s : SharedPrefix cfg α) : PrefixOp cfg α → Option (Holders cfg α)
  | .call op => s.holders.step op
  | .fill handle w =>
    (s.holders.handles.get? handle).map fun b =>
      { s.holders with allocator := s.holders.allocator.overwrite b w }

def step (s : SharedPrefix cfg α) (op : PrefixOp cfg α) : Option (SharedPrefix cfg α) :=
  (s.stepHolders op).map fun holders =>
    ⟨holders, if holders.allocator.prefixCache.contains hash then s.firstHit.or (s.hit hash op)
      else none⟩

def machine (cfg : BlockConfig) (α : Type) [Zero α] :
    Machine (SharedPrefix cfg α) (PrefixOp cfg α) :=
  ⟨{ holders := (Holders.machine cfg α).init }, step hash⟩

/-- From the first hit on, blocks are written through `copy_on_write` only. -/
def allowed (s : SharedPrefix cfg α) : PrefixOp cfg α → Bool
  | .fill _ _ => s.firstHit.isNone
  | .call _ => true

end SharedPrefix
end InferenceCluster
