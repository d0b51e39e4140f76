import Mathlib.Algebra.Order.Field.Basic

/-! The token bucket of `scheduler/rate_limiter.py` over an ordered field. A method takes
the reading of the clock that it makes inside the lock. -/

namespace InferenceCluster

structure TokenBucket (K : Type) where
  rate : K
  capacity : K
  tokens : K
  lastRefill : K
  totalAllowed : ℕ := 0
  totalRejected : ℕ := 0

structure BucketStats (K : Type) where
  tokensAvailable : K
  capacity : K
  ratePerSec : K
  totalAllowed : ℕ
  totalRejected : ℕ
  rejectionRate : K

inductive BucketCall (K : Type) where
  | acquire (now cost : K)
  | stats (now : K)

def BucketCall.now {K : Type} : BucketCall K → K
  | .acquire now _ => now
  | .stats now => now

def BucketCall.isAcquire {K : Type} : BucketCall K → Bool
  | .acquire _ _ => true
  | .stats _ => false

namespace TokenBucket

variable {K : Type} [Field K] [LinearOrder K]

def init (rate capacity now : K) : TokenBucket K where
  rate := rate
  capacity := capacity
  tokens := capacity
  lastRefill := now

def refill (b : TokenBucket K) (now : K) : TokenBucket K :=
  let elapsed := now - b.lastRefill
  { b with tokens := min b.capacity (b.tokens + elapsed * b.rate), lastRefill := now }

def acquire (b : TokenBucket K) (now : K) (cost : K := 1) : Bool × TokenBucket K :=
  let b := b.refill now
  if cost ≤ b.tokens then
    (true, { b with tokens := b.tokens - cost, totalAllowed := b.totalAllowed + 1 })
  else (false, { b with totalRejected := b.totalRejected + 1 })

/-- `round x n` stands for Python's rounding to `n` digits. -/
def stats (round : K → ℕ → K) (b : TokenBucket K) (now : K) : BucketStats K × TokenBucket K :=
  let b := b.refill now
  let total := b.totalAllowed + b.totalRejected
  ({ tokensAvailable := round b.tokens 2
     capacity := b.capacity
     ratePerSec := b.rate
     totalAllowed := b.totalAllowed
     totalRejected := b.totalRejected
     rejectionRate := if total > 0 then round (b.totalRejected / total) 3 else 0 }, b)

variable (round : K → ℕ → K)

def step (b : TokenBucket K) : BucketCall K → TokenBucket K
  | .acquire now cost => (b.acquire now cost).2
  | .stats now => (b.stats round now).2

def run (b : TokenBucket K) (calls : List (BucketCall K)) : TokenBucket K :=
  calls.foldl (step round) b

/-- What the `acquire` calls of a run return, in order. -/
def decisions (b : TokenBucket K) : List (BucketCall K) → List Bool
  | [] => []
  | .acquire now cost :: calls =>
    (b.acquire now cost).1 :: decisions (b.acquire now cost).2 calls
  | .stats now :: calls => decisions (b.stats round now).2 calls

/-- The instants and the costs of the `acquire` calls that return `True`. -/
def admitted (b : TokenBucket K) : List (BucketCall K) → List (K × K)
  | [] => []
  | .acquire now cost :: calls =>
    let r := b.acquire now cost
    if r.1 then (now, cost) :: admitted r.2 calls else admitted r.2 calls
  | .stats now :: calls => admitted (b.stats round now).2 calls

end TokenBucket
end InferenceCluster
