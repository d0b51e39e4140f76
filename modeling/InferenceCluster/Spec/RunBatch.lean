import InferenceCluster.Spec.Scheduler

/-! `_run_batch` of `scheduler/scheduler.py`. Tokenizer and model are not part of the
repository: what the code calls of them is a parameter. A token is a number, and a tensor is
the list of its rows. -/

namespace InferenceCluster

/-- What the tokenizer returns for one prompt, less the dimension of the batch. -/
structure Encoding where
  inputIds : List ℕ
  attentionMask : List ℕ

/-- The second argument of `decode` is `skip_special_tokens`. -/
structure Tokenizer where
  encode : String → Encoding
  decode : List ℕ → Bool → String
  padTokenId : Option ℕ
  eosTokenId : ℕ

/-- The keyword arguments of `generate`. -/
structure GenerateArgs (K : Type) where
  inputIds : List (List ℕ)
  attentionMask : List (List ℕ)
  maxNewTokens : ℕ
  doSample : Bool := true
  temperature : K
  topP : K
  useCache : Bool := true
  padTokenId : Option ℕ := none

abbrev Generate (K : Type) := GenerateArgs K → Except PyException (List (List ℕ))

def emptySequence : PyException :=
  ⟨["ValueError", "Exception"], "max() arg is an empty sequence", true⟩

def indexOutOfBounds (i size : ℕ) : PyException :=
  ⟨["IndexError", "LookupError", "Exception"],
    s!"index {i} is out of bounds for dimension 0 with size {size}", true⟩

/-- `pad_token_id or eos_token_id`; the pad id 0 is false as a condition. -/
def Tokenizer.padId (tokenizer : Tokenizer) : ℕ :=
  match tokenizer.padTokenId with
  | some padId => if padId = 0 then tokenizer.eosTokenId else padId
  | none => tokenizer.eosTokenId

/-- `row[:len(ids)] = ids` -/
def assignPrefix (row ids : List ℕ) : List ℕ := ids ++ row.drop ids.length

/-- `out[i]` -/
def rowAt (out : List (List ℕ)) (i : ℕ) : Except PyException (List ℕ) :=
  match out[i]? with
  | some row => .ok row
  | none => .error (indexOutOfBounds i out.length)

variable {K : Type}

/-- The shortest `max_new_tokens` of a batch. -/
def minMaxTokens (first : Request K) (rest : List (Request K)) : ℕ :=
  rest.foldl (fun n req => min n req.maxNewTokens) first.maxNewTokens

section Run

variable (tokenizer : Tokenizer) (generate : Generate K)

/-- The result of one request, once the tokens after `promptWidth` are taken. -/
def batchResult (promptWidth : ℕ) (enc : Encoding) (row : List ℕ) : BatchResult where
  text := tokenizer.decode (row.drop promptWidth) true
  promptTokens := enc.inputIds.length
  generatedTokens := (row.drop promptWidth).length

def singleArgs (req : Request K) : GenerateArgs K where
  inputIds := [(tokenizer.encode req.prompt).inputIds]
  attentionMask := [(tokenizer.encode req.prompt).attentionMask]
  maxNewTokens := req.maxNewTokens
  temperature := req.temperature
  topP := req.topP

/-- The fast path: a single request, no padding. -/
def runSingle (req : Request K) : Except PyException (List BatchResult) := do
  let enc := tokenizer.encode req.prompt
  let out ← generate (singleArgs tokenizer req)
  let row ← rowAt out 0
  return [batchResult tokenizer enc.inputIds.length enc row]

/-- The loop over the rows of the output, from row `i` on. -/
def trimRows (maxLen : ℕ) (out : List (List ℕ)) :
    List Encoding → ℕ → Except PyException (List BatchResult)
  | [], _ => .ok []
  | enc :: encodings, i => do
    let row ← rowAt out i
    let results ← trimRows maxLen out encodings (i + 1)
    return batchResult tokenizer maxLen enc row :: results

def longest (encodings : List Encoding) : ℕ :=
  encodings.foldl (fun n enc => max n enc.inputIds.length) 0

/-- The prompts right-padded to the longest one, the parameters of the first request for all. -/
def paddedArgs (first : Request K) (rest : List (Request K)) : GenerateArgs K :=
  let encodings := (first :: rest).map fun req => tokenizer.encode req.prompt
  let maxLen := longest encodings
  { inputIds := encodings.map fun enc =>
      assignPrefix (List.replicate maxLen tokenizer.padId) enc.inputIds
    attentionMask := encodings.map fun enc =>
      assignPrefix (List.replicate maxLen 0) (List.replicate enc.inputIds.length 1)
    maxNewTokens := minMaxTokens first rest
    temperature := first.temperature
    topP := first.topP
    padTokenId := some tokenizer.padId }

/-- The batch path. -/
def runPadded (first : Request K) (rest : List (Request K)) :
    Except PyException (List BatchResult) := do
  let encodings := (first :: rest).map fun req => tokenizer.encode req.prompt
  let maxLen := longest encodings
  let out ← generate (paddedArgs tokenizer first rest)
  trimRows tokenizer maxLen out encodings 0

/-- What the model is called with for a batch. -/
def modelArgs : List (Request K) → Option (GenerateArgs K)
  | [] => none
  | [req] => some (singleArgs tokenizer req)
  | first :: rest => some (paddedArgs tokenizer first rest)

/-- `_run_batch` -/
def runBatch : List (Request K) → Except PyException (List BatchResult)
  | [] => .error emptySequence
  | [req] => runSingle tokenizer generate req
  | first :: rest => runPadded tokenizer generate first rest

end Run

end InferenceCluster
