import InferenceCluster.Spec.PriorityQueue

/-! The queue of `scheduler/priority_queue.py` with its condition variable: any number of
threads in `push`, `pop` and `pop_batch`. A step is what a thread does while it holds the
lock. `wait` and `notify` are those of `threading.Condition`: a waiter stays in the deque of
waiters until it is notified or, its time being up, it has the lock again. -/

namespace InferenceCluster

/-- `waiters` is the deque; the flag says that the thread's time is up and it is on its way to
the lock. `notified` are the threads on their way that `notify` took off the deque. The rest
is kept for the statements only. -/
structure QueueThreads (K : Type) where
  queue : PriorityQueue K := {}
  waiters : List (ℕ × Bool) := []
  notified : List ℕ := []
  pushed : List (Request K) := []
  handedOut : List (Request K) := []
  returned : List (ℕ × Option (Request K)) := []

inductive QueueEvent (K : Type) where
  | push (request : Request K)
  | pop (thread : ℕ) (expired : Bool)
  | timeUp (thread : ℕ)
  | resume (thread : ℕ) (expired : Bool)
  | popBatch (maxSize : ℤ)

namespace QueueThreads

variable {K : Type}

/-- `notify` -/
def notify (s : QueueThreads K) : QueueThreads K :=
  match s.waiters with
  | [] => s
  | (thread, _) :: waiters => { s with waiters, notified := s.notified ++ [thread] }

/-- The thread is in a call of `pop`. -/
def inPop (s : QueueThreads K) (thread : ℕ) : Bool :=
  thread ∈ s.waiters.map Prod.fst ∨ thread ∈ s.notified

variable [LinearOrder K]

def push (s : QueueThreads K) (request : Request K) : QueueThreads K :=
  notify { s with
    queue := s.queue.push request
    pushed := s.pushed ++ [request] }

/-- One turn of the loop in `pop`, which ends in a `return` or in `wait`. -/
def turn (s : QueueThreads K) (thread : ℕ) (expired : Bool) : QueueThreads K :=
  match s.queue.pop expired with
  | some (r, queue) =>
    { s with
      queue
      handedOut := s.handedOut ++ r.toList
      returned := s.returned ++ [(thread, r)] }
  | none => { s with waiters := s.waiters ++ [(thread, false)] }

/-- The `wait` of a thread is over, and it has the lock again. -/
def resume (s : QueueThreads K) (thread : ℕ) (expired : Bool) : Option (QueueThreads K) :=
  if thread ∈ s.notified then
    some (turn { s with notified := s.notified.erase thread } thread expired)
  else if (thread, true) ∈ s.waiters then
    some (turn { s with waiters := s.waiters.erase (thread, true) } thread expired)
  else none

def step (s : QueueThreads K) : QueueEvent K → Option (QueueThreads K)
  | .push request => some (s.push request)
  | .pop thread expired => if s.inPop thread then none else some (s.turn thread expired)
  | .timeUp thread =>
    if (thread, false) ∈ s.waiters then
      some { s with
        waiters := s.waiters.map fun w => if w = (thread, false) then (thread, true) else w }
    else none
  | .resume thread expired => s.resume thread expired
  | .popBatch maxSize =>
    let r := s.queue.popBatch maxSize
    some { s with queue := r.2, handedOut := s.handedOut ++ r.1 }

variable (K) in
def machine : Machine (QueueThreads K) (QueueEvent K) := ⟨{}, step⟩

end QueueThreads
end InferenceCluster
