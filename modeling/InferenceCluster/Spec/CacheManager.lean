import InferenceCluster.Spec.KvCache

/-! The sequences of `core/cache_manager.py`. A method of a `SequenceCache` runs on the
sequence and on the allocator that it shares with others; block sizes are positive, `%`
by 0 is not modelled. A tensor of shape `[num_heads, tokens, head_dim]` is the list of
its slices by token. -/

namespace InferenceCluster

structure SequenceCache (cfg : BlockConfig) where
  seqId : String
  blockTable : List (BlockId cfg) := []
  numCachedTokens : ℕ := 0

structure CacheState (cfg : BlockConfig) (α : Type) where
  allocator : BlockAllocator cfg α
  seq : SequenceCache cfg

inductive CacheError where
  | memoryError (e : MemoryError)
  | indexError

abbrev CacheM (cfg : BlockConfig) (α : Type) := EStateM CacheError (CacheState cfg α)

/-- The slices by token of a `[num_heads, tokens, head_dim]` tensor. -/
abbrev HeadRows (cfg : BlockConfig) (α : Type) := List (Fin cfg.numHeads → Vec cfg α)

variable {cfg : BlockConfig} {α : Type}

/-- `slab[layer_idx, head_idx, slot] = vec` -/
def Slab.put (slab : Slab cfg α) (layer : Fin cfg.numLayers) (head : Fin cfg.numHeads)
    (slot : ℕ) (vec : Vec cfg α) : Slab cfg α := fun l h s =>
  if l = layer ∧ h = head ∧ s = slot then vec else slab l h s

/-- `slab[layer_idx, :, :, :]` -/
def Slab.rows (slab : Slab cfg α) (layer : Fin cfg.numLayers) : HeadRows cfg α :=
  List.ofFn fun slot head => slab layer head slot

namespace SequenceCache

variable (seq : SequenceCache cfg)

def tokensInLastBlock : ℕ :=
  let remainder := seq.numCachedTokens % cfg.blockSize
  if remainder ≠ 0 then remainder else if seq.blockTable ≠ [] then cfg.blockSize else 0

def lastBlockFull : Bool :=
  seq.blockTable = [] ∨ seq.tokensInLastBlock = cfg.blockSize

/-- The slot that `append_token_kv` writes. -/
def slot : ℕ := if seq.tokensInLastBlock = cfg.blockSize then 0 else seq.tokensInLastBlock

/-- How many tokens `get_kv` reads from the block at index `i` of the table. -/
def tokensInBlock (i : ℕ) : ℕ :=
  if i < seq.blockTable.length - 1 then cfg.blockSize
  else if seq.tokensInLastBlock = 0 then cfg.blockSize else seq.tokensInLastBlock

end SequenceCache

namespace CacheState

/-- A call of a method of the shared allocator. -/
def onAllocator {β : Type} (m : AllocM cfg α β) : CacheM cfg α β := fun st =>
  match m st.allocator with
  | .ok x a => .ok x { st with allocator := a }
  | .error e a => .error (.memoryError e) { st with allocator := a }

def setTable (st : CacheState cfg α) (table : List (BlockId cfg)) : CacheState cfg α :=
  { st with seq := { st.seq with blockTable := table } }

def writeSlot (st : CacheState cfg α) (block : BlockId cfg) (layer : Fin cfg.numLayers)
    (head : Fin cfg.numHeads) (slot : ℕ) (k v : Vec cfg α) : CacheState cfg α :=
  { st with allocator := st.allocator.overwrite block fun c =>
      ⟨c.k.put layer head slot k, c.v.put layer head slot v⟩ }

def appendTokenKv (layer : Fin cfg.numLayers) (head : Fin cfg.numHeads) (k v : Vec cfg α) :
    CacheM cfg α Unit := do
  if (← get).seq.lastBlockFull then
    let newBlock ← onAllocator BlockAllocator.allocate
    modify fun st => st.setTable (st.seq.blockTable ++ [newBlock])
  let slot := (← get).seq.slot
  match (← get).seq.blockTable.getLast? with
  | none => throw .indexError
  | some block =>
    let block ← onAllocator (BlockAllocator.copyOnWrite block)
    modify fun st => st.setTable (st.seq.blockTable.dropLast ++ [block])
    modify fun st => st.writeSlot block layer head slot k v

def incrementTokenCount (st : CacheState cfg α) : CacheState cfg α :=
  { st with seq := { st.seq with numCachedTokens := st.seq.numCachedTokens + 1 } }

/-- One of the two tensors of `get_kv`: the loop over the table and `torch.cat`. -/
def gather (st : CacheState cfg α) (slab : PhysicalBlock cfg α → Slab cfg α)
    (layer : Fin cfg.numLayers) : HeadRows cfg α :=
  st.seq.blockTable.zipIdx.flatMap fun p =>
    ((slab (st.allocator.pool p.1)).rows layer).take (st.seq.tokensInBlock p.2)

def getKv (st : CacheState cfg α) (layer : Fin cfg.numLayers) : HeadRows cfg α × HeadRows cfg α :=
  if st.seq.blockTable = [] then ([], [])
  else (st.gather (·.k) layer, st.gather (·.v) layer)

end CacheState

/-! ### The protocol of a writer -/

/-- What one token appends: vectors for all pairs of a layer and a head, and the order in
which the pairs are written, each once. -/
structure TokenKv (cfg : BlockConfig) (α : Type) where
  order : List (Fin cfg.numLayers × Fin cfg.numHeads)
  nodup : order.Nodup
  complete : ∀ p, p ∈ order
  k : Fin cfg.numLayers → Fin cfg.numHeads → Vec cfg α
  v : Fin cfg.numLayers → Fin cfg.numHeads → Vec cfg α

def writePairs (token : TokenKv cfg α) :
    List (Fin cfg.numLayers × Fin cfg.numHeads) → CacheM cfg α Unit
  | [] => pure ()
  | p :: ps => do
    CacheState.appendTokenKv p.1 p.2 (token.k p.1 p.2) (token.v p.1 p.2)
    writePairs token ps

def writeToken (token : TokenKv cfg α) : CacheM cfg α Unit := do
  writePairs token token.order
  modify CacheState.incrementTokenCount

def writeTokens : List (TokenKv cfg α) → CacheM cfg α Unit
  | [] => pure ()
  | token :: tokens => do
    writeToken token
    writeTokens tokens

/-- A fresh sequence on a fresh allocator. -/
def CacheState.init (cfg : BlockConfig) (α : Type) [Zero α] (seqId : String) : CacheState cfg α :=
  ⟨BlockAllocator.init cfg α, { seqId }⟩

end InferenceCluster
