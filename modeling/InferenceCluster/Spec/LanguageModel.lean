import InferenceCluster.Spec.RunBatch

/-! What `_run_batch` takes for granted of a model and its tokenizer: rows are independent of
each other and of their padding. -/

namespace InferenceCluster

variable {K : Type}

/-- The prompt tokens that the attention mask lets through. -/
def unmasked (ids mask : List ℕ) : List ℕ :=
  ((ids.zip mask).filter fun t => t.2 != 0).map Prod.fst

/-- The tokens up to the first that ends the text, with it. -/
def cutAfter (ends : ℕ → Bool) : List ℕ → List ℕ
  | [] => []
  | t :: ts => if ends t then [t] else t :: cutAfter ends ts

/-- The continuation of a prompt under a temperature and a `top_p`, token by token, for a
fixed random source. -/
structure LanguageModel (K : Type) where
  continuation : List ℕ → K → K → ℕ → ℕ
  isEos : ℕ → Bool
  defaultPad : ℕ

/-- What `generate` accepts: tensors of one shape, sampling parameters in their ranges. -/
structure GenerateArgs.Valid [Zero K] [One K] [LE K] [LT K] (args : GenerateArgs K) : Prop where
  rows : args.inputIds.length = args.attentionMask.length
  width : ∃ width, (∀ ids ∈ args.inputIds, ids.length = width) ∧
    ∀ mask ∈ args.attentionMask, mask.length = width
  maxNewTokens : 0 < args.maxNewTokens
  temperature : 0 < args.temperature
  topP : 0 ≤ args.topP ∧ args.topP ≤ 1

structure Request.Valid [Zero K] [One K] [LE K] [LT K] (req : Request K) : Prop where
  maxNewTokens : 0 < req.maxNewTokens
  temperature : 0 < req.temperature
  topP : 0 ≤ req.topP ∧ req.topP ≤ 1

namespace LanguageModel

def generated (lm : LanguageModel K) (prompt : List ℕ) (temperature topP : K)
    (maxNewTokens : ℕ) : List ℕ :=
  cutAfter lm.isEos ((List.range maxNewTokens).map (lm.continuation prompt temperature topP))

/-- An output row: its prompt as it came in, the generated tokens, and pads. -/
def IsRow (lm : LanguageModel K) (args : GenerateArgs K) (row : List ℕ × List ℕ)
    (out : List ℕ) : Prop :=
  ∃ n, out = row.1 ++ lm.generated (unmasked row.1 row.2) args.temperature args.topP
    args.maxNewTokens ++ List.replicate n (args.padTokenId.getD lm.defaultPad)

end LanguageModel

/-- What the two paths take for granted: `generate` returns one row for each row of its
tensors, the mask of a prompt alone is all ones, and `decode` drops special tokens, the pads
among them. -/
structure RowIndependent [Zero K] [One K] [LE K] [LT K] (tokenizer : Tokenizer)
    (generate : Generate K) (lm : LanguageModel K) (special : ℕ → Bool) : Prop where
  rows : ∀ args : GenerateArgs K, args.Valid →
    ∃ out, generate args = .ok out ∧
      List.Forall₂ (lm.IsRow args) (args.inputIds.zip args.attentionMask) out
  mask : ∀ prompt, (tokenizer.encode prompt).attentionMask =
    List.replicate (tokenizer.encode prompt).inputIds.length 1
  skips : ∀ ids, tokenizer.decode ids true = tokenizer.decode (ids.filter fun t => !special t) true
  padSpecial : special tokenizer.padId = true
  defaultPadSpecial : special lm.defaultPad = true

end InferenceCluster
