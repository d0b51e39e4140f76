import InferenceCluster.Lib.Heapq
import InferenceCluster.Lib.Machine
import Mathlib.Algebra.Order.Group.Unbundled.Int

/-! The priority queue of `scheduler/priority_queue.py`. A method is one section under the
queue's lock; `ref` is the identity of a `Request` object. -/

namespace InferenceCluster

structure Request (K : Type) where
  ref : ℕ
  prompt : String
  maxNewTokens : ℕ := 100
  temperature : K
  topP : K
  priority : ℤ := 0
  arrivalTime : K
  requestId : String
  deriving DecidableEq

structure PriorityQueue (K : Type) where
  heap : List (Request K) := []

variable {K : Type} [LinearOrder K]

/-- `__lt__`, the order of the pairs `(priority, arrival_time)`. -/
def Request.lt (r other : Request K) : Bool :=
  if r.priority = other.priority then r.arrivalTime < other.arrivalTime
  else r.priority < other.priority

namespace PriorityQueue

def push (q : PriorityQueue K) (request : Request K) : PriorityQueue K :=
  ⟨Heapq.heappush Request.lt q.heap request⟩

/-- One turn of the loop in `pop`; `expired` says that the clock is past the deadline, and
`none` that the thread waits on. -/
def pop (q : PriorityQueue K) (expired : Bool) : Option (Option (Request K) × PriorityQueue K) :=
  match Heapq.heappop Request.lt q.heap with
  | some (request, heap) => some (some request, ⟨heap⟩)
  | none => if expired then some (none, q) else none

/-- The loop of `pop_batch`; every turn but the last takes an element off the heap. -/
def popBatchLoop (maxSize : ℤ) :
    ℕ → List (Request K) → List (Request K) → List (Request K) × List (Request K)
  | 0, heap, batch => (batch, heap)
  | fuel + 1, heap, batch =>
    match Heapq.heappop Request.lt heap with
    | some (request, rest) =>
      if batch.length < maxSize then popBatchLoop maxSize fuel rest (batch ++ [request])
      else (batch, heap)
    | none => (batch, heap)

def popBatch (q : PriorityQueue K) (maxSize : ℤ := 8) : List (Request K) × PriorityQueue K :=
  let r := popBatchLoop maxSize q.heap.length q.heap []
  (r.1, ⟨r.2⟩)

/-- `n` calls of `pop` in a row, each of which hands out a request. -/
def pops : ℕ → PriorityQueue K → Option (List (Request K) × PriorityQueue K)
  | 0, q => some ([], q)
  | n + 1, q =>
    match q.pop false with
    | some (some request, q') => (pops n q').map fun r => (request :: r.1, r.2)
    | _ => none

omit [LinearOrder K] in
def size (q : PriorityQueue K) : ℕ := q.heap.length

theorem push_perm (q : PriorityQueue K) (request : Request K) :
    (q.push request).heap.Perm (request :: q.heap) :=
  Heapq.heappush_perm _ _ _

theorem pop_some {q q' : PriorityQueue K} {expired : Bool} {request : Request K}
    (h : q.pop expired = some (some request, q')) : q.heap.Perm (request :: q'.heap) := by
  unfold pop at h
  split at h
  · rename_i hp
    cases h
    exact Heapq.heappop_perm _ hp
  · split_ifs at h; cases h

theorem pop_timeout {q q' : PriorityQueue K} {expired : Bool} (h : q.pop expired = some (none, q')) :
    q' = q ∧ q.heap = [] := by
  unfold pop at h
  split at h
  · cases h
  · rename_i hp
    split_ifs at h with he
    cases h
    exact ⟨rfl, (Heapq.heappop_eq_none _).mp hp⟩

/-- A turn takes a request off the heap, times out at an empty heap or waits there. -/
theorem pop_cases (q : PriorityQueue K) (expired : Bool) :
    (∃ request q', q.heap.Perm (request :: q'.heap) ∧
      q.pop expired = some (some request, q')) ∨
    (q.heap = [] ∧ q.pop expired = if expired then some (none, q) else none) := by
  cases hp : Heapq.heappop Request.lt q.heap with
  | none => exact .inr ⟨(Heapq.heappop_eq_none _).mp hp, by simp only [pop, hp]⟩
  | some r =>
    obtain ⟨request, heap⟩ := r
    exact .inl ⟨request, ⟨heap⟩, Heapq.heappop_perm _ hp, by simp only [pop, hp]⟩

/-! ### Histories -/

inductive Op (K : Type) where
  | push (request : Request K)
  | pop (expired : Bool)
  | popBatch (maxSize : ℤ)

/-- The requests that a call hands out, in order, and the queue after it. -/
def serve (q : PriorityQueue K) : Op K → Option (List (Request K) × PriorityQueue K)
  | .push request => some ([], q.push request)
  | .pop expired => (q.pop expired).map fun r => (r.1.toList, r.2)
  | .popBatch maxSize => some (q.popBatch maxSize)

def Op.pushed : Op K → List (Request K)
  | .push request => [request]
  | _ => []

/-- A queue with all requests that were pushed and all that were handed out, oldest first. -/
structure Served (K : Type) where
  queue : PriorityQueue K := {}
  pushed : List (Request K) := []
  popped : List (Request K) := []

def Served.call (s : Served K) (op : Op K) : Option (Served K) :=
  (s.queue.serve op).map fun r => ⟨r.2, s.pushed ++ op.pushed, s.popped ++ r.1⟩

variable (K) in
/-- Any sequence of calls on a new queue. -/
def calls : Machine (Served K) (Op K) := ⟨{}, Served.call⟩

end PriorityQueue
end InferenceCluster
