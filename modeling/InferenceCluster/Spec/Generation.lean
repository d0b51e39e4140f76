import InferenceCluster.Spec.RunBatch

/-! What the model generates, run by run, beside what the counters of the scheduler make of
it. `generate` returns rows of one width, so it fills up the shorter ones. -/

namespace InferenceCluster

/-- The tokens that one call of `generate` adds to each of its rows, or what it raises. -/
abbrev Generation := Except PyException (List (List ℕ))

def Generation.rows : Generation → List (List ℕ)
  | .ok rows => rows
  | .error _ => []

def Generation.hasRows (g : Generation) (n : ℕ) : Prop := ∀ rows, g = .ok rows → rows.length = n

instance (g : Generation) (n : ℕ) : Decidable (g.hasRows n) :=
  match g with
  | .ok rows => decidable_of_iff (rows.length = n) (by simp [Generation.hasRows])
  | .error _ => isTrue nofun

def maxLength (rows : List (List ℕ)) : ℕ := rows.foldl (fun n row => max n row.length) 0

/-- A row of the output: the prompt as it came in, the generated tokens, and pads. -/
def outputRow (pad width : ℕ) (ids row : List ℕ) : List ℕ :=
  ids ++ row ++ List.replicate (width - row.length) pad

variable {K : Type}

def Generation.generate (g : Generation) (defaultPad : ℕ) : Generate K := fun args => do
  let rows ← g
  return List.zipWith (outputRow (args.padTokenId.getD defaultPad) (maxLength rows))
    args.inputIds rows

/-- The request is done, and without an exception. -/
def Futures.succeeded (fs : Futures) (ref : ℕ) : Bool :=
  match fs ref with
  | some (.finished (.ok _)) => true
  | _ => false

/-- The tokens generated for the requests of a batch that did not fail. -/
def Futures.generated (fs : Futures) (batch : List (Request K)) (rows : List (List ℕ)) : ℕ :=
  ((batch.zip rows).map fun p => if fs.succeeded p.1.ref then p.2.length else 0).sum

namespace SchedulerSystem

/-- The worker's model run of number `k` is `_run_batch` with what the model generates for it,
a row for each request. -/
def runs (tokenizer : Tokenizer) (defaultPad : ℕ) (model : ℕ → Generation)
    (s : SchedulerSystem K) : SchedulerEvent K → Bool
  | .worker (.runBatch r) =>
    match s.worker with
    | .runBatch batch =>
      let g := model s.history.served.length
      r = runBatch tokenizer (g.generate defaultPad) batch ∧ g.hasRows batch.length
    | _ => true
  | _ => true

/-- Each request is reported with the tokens generated for its row, and the total is what was
generated for the requests of the counted batches that did not fail. -/
structure ExactCounts (model : ℕ → Generation) (s : SchedulerSystem K) : Prop where
  reported : ∀ k batch results, s.history.served[k]? = some (batch, .ok results) →
    results.map BatchResult.generatedTokens = (model k).rows.map List.length
  total : s.scheduler.totalTokensGenerated =
    (s.history.completed.zipIdx.map fun b => s.futures.generated b.1 (model b.2).rows).sum

end SchedulerSystem
end InferenceCluster
