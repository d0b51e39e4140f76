import InferenceCluster.Lib.Progress
import InferenceCluster.Proofs.ExactlyOnce

/-! Bounded service. Once nothing more is submitted, the worker resolves what was accepted
within a number of sections that is linear in the requests left: a section either lowers
what is left to do, or waits at an empty heap. -/

namespace InferenceCluster

variable {K : Type}

/-- The sections that the worker has ahead of it at a point before it is back at the top of its
loop, other than those for requests still to come. -/
def WorkerPoint.ahead (idle : Bool) : WorkerPoint K → ℕ
  | .notStarted => 2
  | .loopTop => if idle then 0 else 1
  | .waitFirst | .exited | .crashed _ => 0
  | .collecting batch => batch.length + 6
  | .waitMore batch => batch.length + 5
  | .runBatch batch => batch.length + 4
  | .delivering _ todo => todo.length + 3
  | .failing _ _ todo => todo.length + 3
  | .accounting _ => 2

namespace SchedulerSystem

/-- The requests that are accepted and not resolved yet. -/
def left (s : SchedulerSystem K) : ℕ :=
  s.submitting.length + s.scheduler.queue.heap.length + s.worker.current.length

/-- The worker waits: there is nothing on the heap, and the batch it collects, if any, has
time left. -/
def waits (s : SchedulerSystem K) : SchedulerEvent K → Bool
  | .worker .checkRunning | .worker (.popFirst _) => s.scheduler.queue.heap.isEmpty
  | .worker (.popMore expired) => s.scheduler.queue.heap.isEmpty && !expired
  | _ => false

def works (s : SchedulerSystem K) (e : SchedulerEvent K) : Bool := !s.waits e

/-- No call of `stop`, and the worker thread is not over. -/
def alive (s : SchedulerSystem K) : Bool :=
  match s.worker with
  | .notStarted => true
  | .exited | .crashed _ => false
  | _ => s.scheduler.running

/-- The scheduler's terms of service; and an exception of the model is true as a condition, as
those of the class itself are. -/
def serves (s : SchedulerSystem K) (e : SchedulerEvent K) : Bool :=
  s.allowed e && match e with
  | .worker (.runBatch (.error e)) => e.truth
  | _ => true

/-- Every exception that a model run has raised is true as a condition. -/
def Truthful (s : SchedulerSystem K) : Prop :=
  ∀ b ∈ s.history.served, ∀ e, b.2 = .error e → e.truth = true

/-! ### What is left -/

variable {m : ℕ} {s s' : SchedulerSystem K}

variable [LinearOrder K]

variable [Field K]

theorem Truthful.step (h : s.Truthful) {e : SchedulerEvent K} (hok : s.serves e = true)
    (hs : s.step e = some s') : s'.Truthful := by
  cases e with
  | submit now req =>
    obtain rfl := Option.some.inj hs
    simp only [SchedulerSystem.submit]
    split_ifs <;> exact h
  | push req =>
    simp only [SchedulerSystem.step, SchedulerSystem.push] at hs
    split_ifs at hs
    obtain rfl := Option.some.inj hs
    exact h
  | cancel | stop =>
    obtain rfl := Option.some.inj hs
    exact h
  | worker a =>
    cases workerStepped hs with
    | @ran batch r hw =>
      intro b hb e he
      rcases List.mem_append.mp hb with hb | hb
      · exact h b hb e he
      · obtain rfl := List.mem_singleton.mp hb
        obtain rfl : r = .error e := he
        exact (Bool.and_eq_true_iff.mp hok).2
    | poppedFirst | poppedMore =>
      unfold SchedulerSystem.popStep
      split <;> exact h
    | delivering | failing =>
      unfold SchedulerSystem.resolveStep
      split <;> exact h
    | _ => exact h

end SchedulerSystem
end InferenceCluster
