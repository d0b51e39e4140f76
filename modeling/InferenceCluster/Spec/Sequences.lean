import InferenceCluster.Lib.Machine
import InferenceCluster.Spec.CacheManager

/-! The `CacheManager` of `core/cache_manager.py` and the flush of `server/api.py`: any
number of sequences on one allocator that nothing else uses. -/

namespace InferenceCluster

structure CacheManager (cfg : BlockConfig) (α : Type) where
  allocator : BlockAllocator cfg α
  sequences : PyDict String (SequenceCache cfg)

/-- What `create_sequence` raises: the sequence with this id already exists. -/
structure ValueError where
  seqId : String

variable {cfg : BlockConfig} {α : Type}

/-- `used_blocks` of `stats`. -/
def BlockAllocator.usedBlocks (a : BlockAllocator cfg α) : ℕ := cfg.numBlocks - a.freeList.length

/-- `blocks_used` of `info`. -/
def SequenceCache.blocksUsed (seq : SequenceCache cfg) : ℕ := seq.blockTable.length

/-- `SequenceCache.free` -/
def CacheState.free (st : CacheState cfg α) : CacheState cfg α where
  allocator := st.seq.blockTable.foldl BlockAllocator.decRef st.allocator
  seq := { st.seq with blockTable := [], numCachedTokens := 0 }

/-- A call on the manager, or on one of its sequences. -/
inductive CacheOp (cfg : BlockConfig) (α : Type) where
  | createSequence (seqId : String)
  | appendTokenKv (seqId : String) (layer : Fin cfg.numLayers) (head : Fin cfg.numHeads)
      (k v : Vec cfg α)
  | incrementTokenCount (seqId : String)
  | freeSequence (seqId : String)
  | flush

/-- The sequence that a call is about. -/
def CacheOp.subject : CacheOp cfg α → Option String
  | .createSequence seqId | .appendTokenKv seqId _ _ _ _ | .incrementTokenCount seqId
  | .freeSequence seqId => some seqId
  | .flush => none

namespace CacheManager

def init (cfg : BlockConfig) (α : Type) [Zero α] : CacheManager cfg α :=
  ⟨BlockAllocator.init cfg α, PyDict.empty⟩

def createSequence (s : CacheManager cfg α) (seqId : String) :
    Except ValueError (CacheManager cfg α) :=
  if s.sequences.contains seqId then .error ⟨seqId⟩
  else .ok { s with sequences := s.sequences.set seqId { seqId } }

/-- A sequence object after one of its methods. -/
def put (s : CacheManager cfg α) (seqId : String) (st : CacheState cfg α) : CacheManager cfg α :=
  ⟨st.allocator, s.sequences.set seqId st.seq⟩

def freeSequence (s : CacheManager cfg α) (seqId : String) : CacheManager cfg α :=
  match s.sequences.get? seqId with
  | some seq => ⟨(CacheState.free ⟨s.allocator, seq⟩).allocator, s.sequences.pop seqId⟩
  | none => s

/-- `cache_flush` -/
def flush (s : CacheManager cfg α) : CacheManager cfg α := s.sequences.keys.foldl freeSequence s

/-- `get_kv` of an active sequence. -/
def getKv (s : CacheManager cfg α) (seqId : String) (layer : Fin cfg.numLayers) :
    Option (HeadRows cfg α × HeadRows cfg α) :=
  (s.sequences.get? seqId).map fun seq => CacheState.getKv ⟨s.allocator, seq⟩ layer

/-- One call; a call that raises ends in the state at the raise, and the methods of a
sequence are called while it is active. -/
def step (s : CacheManager cfg α) : CacheOp cfg α → Option (CacheManager cfg α)
  | .createSequence seqId =>
    match s.createSequence seqId with
    | .ok s => some s
    | .error _ => some s
  | .appendTokenKv seqId layer head k v =>
    (s.sequences.get? seqId).map fun seq =>
      match CacheState.appendTokenKv layer head k v ⟨s.allocator, seq⟩ with
      | .ok _ st | .error _ st => s.put seqId st
  | .incrementTokenCount seqId =>
    (s.sequences.get? seqId).map fun seq =>
      s.put seqId (CacheState.incrementTokenCount ⟨s.allocator, seq⟩)
  | .freeSequence seqId => some (s.freeSequence seqId)
  | .flush => some s.flush

def machine (cfg : BlockConfig) (α : Type) [Zero α] : Machine (CacheManager cfg α) (CacheOp cfg α) :=
  ⟨init cfg α, step⟩

end CacheManager
end InferenceCluster
