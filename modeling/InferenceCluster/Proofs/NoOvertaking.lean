import InferenceCluster.Proofs.PriorityOrder
import InferenceCluster.Proofs.Reconfiguration
import Mathlib.Data.List.TakeWhile

/-! The running service hands its requests to the model in the order of the queue: it refines
the queue called by one thread, so that no request is overtaken by one that is less urgent. -/

namespace InferenceCluster

variable {K : Type}

namespace SchedulerSystem

open PriorityQueue (Op)

/-- The requests that the worker has taken off the queue, in order. -/
def handed (s : SchedulerSystem K) : List (Request K) :=
  s.history.served.flatMap Prod.fst ++ s.worker.gathered

variable [LinearOrder K]

/-- The call of the queue that a section makes; one that goes on waiting makes none. -/
def queueOp (s : SchedulerSystem K) : SchedulerEvent K → Option (Op K)
  | .push req => some (.push req)
  | .worker (.popFirst expired) | .worker (.popMore expired) =>
    (s.scheduler.queue.pop expired).map fun _ => .pop expired
  | _ => none

/-- What a section does to the queue and to what has been taken off it. -/
def QueueStepped (s s' : SchedulerSystem K) : Option (Op K) → Prop
  | none => s'.scheduler.queue = s.scheduler.queue ∧ s'.handed = s.handed
  | some op => ∃ out, s.scheduler.queue.serve op = some (out, s'.scheduler.queue) ∧
    s'.handed = s.handed ++ out

theorem queueStepped_popStep {s : SchedulerSystem K} {w₀ : WorkerPoint K} (hw : s.worker = w₀)
    {expired : Bool} {cont : Option (Request K) → WorkerPoint K}
    (hcont : ∀ r, (cont r).gathered = w₀.gathered ++ r.toList) :
    QueueStepped s (s.popStep expired cont)
      ((s.scheduler.queue.pop expired).map fun _ => .pop expired) := by
  subst hw
  unfold SchedulerSystem.popStep
  cases hp : s.scheduler.queue.pop expired with
  | none => exact ⟨rfl, rfl⟩
  | some r =>
    obtain ⟨r, q⟩ := r
    refine ⟨r.toList, by simp [PriorityQueue.serve, hp], ?_⟩
    simp only [handed, hcont, List.append_assoc]

variable [Field K] {s s' : SchedulerSystem K}

theorem queueStepped_worker {a : WorkerAction K} (hs : WorkerStepped s a s') :
    QueueStepped s s' (s.queueOp (.worker a)) := by
  have hmoved : ∀ {w : WorkerPoint K}, w.gathered = s.worker.gathered →
      (⟨s.scheduler, s.futures, s.submitting, w, s.history⟩ : SchedulerSystem K).handed =
        s.handed :=
    fun h => congrArg (s.history.served.flatMap Prod.fst ++ ·) h
  cases hs with
  | started hw => exact ⟨rfl, hmoved (by rw [hw]; rfl)⟩
  | checkedRunning hw => exact ⟨rfl, hmoved (by rw [hw]; split_ifs <;> rfl)⟩
  | poppedFirst hw => exact queueStepped_popStep hw (by rintro (_ | first) <;> rfl)
  | checkedFull hw => exact ⟨rfl, hmoved (by rw [hw]; split_ifs <;> rfl)⟩
  | poppedMore hw =>
    exact queueStepped_popStep hw (by rintro (_ | more) <;> simp [WorkerPoint.gathered])
  | @ran batch r hw =>
    refine ⟨rfl, ?_⟩
    cases r <;> simp [handed, hw, WorkerPoint.gathered]
  | delivered hw | failed hw => exact ⟨rfl, hmoved (by rw [hw]; rfl)⟩
  | delivering hw | failing hw =>
    unfold SchedulerSystem.resolveStep
    split <;> exact ⟨rfl, by simp [handed, hw, WorkerPoint.gathered]⟩
  | @accounted batch batchMs hw =>
    refine ⟨by simp, ?_⟩
    cases (s.scheduler.account s.futures batch batchMs).1 <;>
      simp [handed, hw, WorkerPoint.gathered]

theorem queueStepped {e : SchedulerEvent K} (hs : s.step e = some s') :
    QueueStepped s s' (s.queueOp e) := by
  cases e with
  | submit now req =>
    obtain rfl := Option.some.inj hs
    simp only [SchedulerSystem.submit]
    split_ifs <;> exact ⟨rfl, rfl⟩
  | push req =>
    simp only [SchedulerSystem.step, SchedulerSystem.push] at hs
    split_ifs at hs
    obtain rfl := Option.some.inj hs
    exact ⟨[], rfl, (List.append_nil _).symm⟩
  | cancel | stop =>
    obtain rfl := Option.some.inj hs
    exact ⟨rfl, rfl⟩
  | worker a => exact queueStepped_worker (workerStepped hs)

end SchedulerSystem

namespace Service

open PriorityQueue (Op calls)

variable [Field K] [LinearOrder K]

def queueOp (s : Service K) : ServiceEvent K → Option (Op K)
  | .scheduler e => s.system.queueOp e
  | .config _ | .stats _ | .count => none

variable [FloorRing K] {s s' t : Service K}

theorem queueStepped {e : ServiceEvent K} (hs : s.step e = some s') :
    s.system.QueueStepped s'.system (s.queueOp e) := by
  cases e with
  | config req =>
    obtain rfl := Option.some.inj hs
    exact ⟨rfl, rfl⟩
  | stats clock =>
    obtain ⟨rateLimiter, stats, rfl⟩ := statsStep_cases hs
    exact ⟨rfl, rfl⟩
  | count =>
    obtain ⟨-, count, rfl⟩ := countStep_cases hs
    exact ⟨rfl, rfl⟩
  | scheduler e =>
    obtain ⟨system, hsys, rfl⟩ := Option.map_eq_some_iff.mp hs
    exact SchedulerSystem.queueStepped hsys

variable {maxBatchSize : ℕ} {maxWaitMs rate burst now : K}

/-- What the queue sees of a run is a run of its own. -/
theorem queue_run {events : List (ServiceEvent K)}
    (h : (machine maxBatchSize maxWaitMs rate burst now).Run events s) :
    ∃ pushed, (calls K).Run ((machine maxBatchSize maxWaitMs rate burst now).shown queueOp events)
      ⟨s.system.scheduler.queue, pushed, s.system.handed⟩ := by
  have hsim : ∃ q, (calls K).Run
      ((machine maxBatchSize maxWaitMs rate burst now).shown queueOp events) q ∧
      q.queue = s.system.scheduler.queue ∧ q.popped = s.system.handed := by
    refine h.simulates_hidden (R := fun (s : Service K) (q : PriorityQueue.Served K) =>
      q.queue = s.system.scheduler.queue ∧ q.popped = s.system.handed) queueOp ⟨rfl, rfl⟩ ?_ ?_
    · rintro u q e u' - ⟨hqueue, hpopped⟩ hu hlab
      have hq := queueStepped hu
      rw [hlab] at hq
      exact ⟨hqueue.trans hq.1.symm, hpopped.trans hq.2.symm⟩
    · rintro u ⟨queue, pushed, popped⟩ e u' op - ⟨rfl, rfl⟩ hu hlab
      have hq := queueStepped hu
      rw [hlab] at hq
      obtain ⟨out, hserve, hhanded⟩ := hq
      refine ⟨⟨u'.system.scheduler.queue, pushed ++ op.pushed, u'.system.handed⟩, ?_, rfl, rfl⟩
      show ((u.system.scheduler.queue.serve op).map _) = _
      rw [hserve, hhanded]
      rfl
  obtain ⟨⟨queue, pushed, popped⟩, hq, rfl, rfl⟩ := hsim
  exact ⟨pushed, hq⟩

/-- While a request waits on the heap, the model gets ahead of it only requests that are more
urgent, or as urgent and not younger; whatever is pushed, reconfigured and asked for meanwhile. -/
theorem no_overtaking {before after : List (ServiceEvent K)}
    (hs : (machine maxBatchSize maxWaitMs rate burst now).Run before s)
    (ht : (machine maxBatchSize maxWaitMs rate burst now).Run (before ++ after) t)
    {r : Request K} (hr : r ∈ s.system.scheduler.queue.heap) :
    ∃ new, t.system.handed = s.system.handed ++ new ∧
      (r ∈ t.system.scheduler.queue.heap ∨ r ∈ new) ∧
      ∀ x ∈ new.takeWhile (· ≠ r), x.priority < r.priority ∨
        x.priority = r.priority ∧ x.arrivalTime ≤ r.arrivalTime := by
  obtain ⟨pushed, hqs⟩ := queue_run hs
  obtain ⟨pushed', hqt⟩ := queue_run ht
  rw [Machine.shown_append _ _ hs] at hqt
  have hbefore : ∀ x, r.lt x = true → ∃ out, t.system.handed = s.system.handed ++ out ∧
      (r ∈ t.system.scheduler.queue.heap ∨ r ∈ out) ∧ ∀ a b, out = a ++ x :: b → r ∈ a :=
    fun x hlt => PriorityQueue.first_before ⟨_, hqs⟩ hr hlt (Machine.exec_of_run _ hqs hqt)
  have hlater : r.lt { r with priority := r.priority + 1 } = true := by simp [Request.lt]
  obtain ⟨new, hnew, hwhere, -⟩ := hbefore _ hlater
  refine ⟨new, hnew, hwhere, fun x hx => ?_⟩
  have hnot : r.lt x = false := by
    by_contra hlt
    obtain ⟨out, hout, -, hfirst⟩ := hbefore x (by simpa using hlt)
    obtain rfl := List.append_cancel_left (hnew.symm.trans hout)
    obtain ⟨a, b, hab⟩ := List.append_of_mem hx
    have hmem : r ∈ a := by
      refine hfirst a (b ++ new.dropWhile (· ≠ r)) ?_
      rw [← List.cons_append, ← List.append_assoc, ← hab, List.takeWhile_append_dropWhile]
    have htaken : r ∈ new.takeWhile (· ≠ r) := hab ▸ List.mem_append_left _ hmem
    simpa using List.mem_takeWhile_imp htaken
  rw [← Bool.not_eq_true, Request.lt_iff, not_lt, Prod.Lex.toLex_le_toLex] at hnot
  exact hnot

def waiting : Request ℚ :=
  { ref := 1, prompt := "", temperature := 1, topP := 1, priority := 5, arrivalTime := 1,
    requestId := "" }

/-- One request is on the heap, two more are accepted and not pushed yet. -/
def oneWaits : List (ServiceEvent ℚ) :=
  [.scheduler (.worker .start), .scheduler (.submit 0 waiting), .scheduler (.push waiting),
    .scheduler (.submit 0 { waiting with ref := 2, priority := 0, arrivalTime := 2 }),
    .scheduler (.submit 0 { waiting with ref := 3, arrivalTime := 3 })]

/-- The more urgent one goes first, the younger one does not. -/
def urgentFirst : List (ServiceEvent ℚ) :=
  [.scheduler (.push { waiting with ref := 3, arrivalTime := 3 }),
    .scheduler (.push { waiting with ref := 2, priority := 0, arrivalTime := 2 }),
    .scheduler (.worker .checkRunning), .scheduler (.worker (.popFirst false)),
    .scheduler (.worker (.checkFull false)), .scheduler (.worker (.popMore false)),
    .scheduler (.worker (.checkFull true)),
    .scheduler (.worker (.runBatch (.ok [⟨"a", 1, 1⟩, ⟨"b", 1, 1⟩])))]

theorem no_overtaking_urgentFirst : ∃ s t, (machine 8 20 50 20 0).Run oneWaits s ∧
    (machine 8 20 50 20 0).Run (oneWaits ++ urgentFirst) t ∧
    t.system.handed.map Request.ref = [2, 1] ∧
    ∃ new, t.system.handed = s.system.handed ++ new ∧
      (waiting ∈ t.system.scheduler.queue.heap ∨ waiting ∈ new) ∧
      ∀ x ∈ new.takeWhile (· ≠ waiting), x.priority < 5 ∨ x.priority = 5 ∧ x.arrivalTime ≤ 1 := by
  have hexec : ((machine 8 20 50 20 0).exec (machine 8 20 50 20 0).init oneWaits).map
      (fun s => s.system.scheduler.queue.heap) = some [waiting] := by
    decide +kernel
  obtain ⟨s, hs, hheap⟩ := Option.map_eq_some_iff.mp hexec
  have hexec' : ((machine 8 20 50 20 0).exec (machine 8 20 50 20 0).init
      (oneWaits ++ urgentFirst)).map (fun t => t.system.handed.map Request.ref) =
        some [2, 1] := by
    decide +kernel
  obtain ⟨t, ht, hhanded⟩ := Option.map_eq_some_iff.mp hexec'
  have hrs := (Machine.run_iff_exec _).mpr hs
  have hrt := (Machine.run_iff_exec _).mpr ht
  have hmem : waiting ∈ s.system.scheduler.queue.heap := hheap ▸ List.mem_singleton_self _
  exact ⟨s, t, hrs, hrt, hhanded, no_overtaking hrs hrt hmem⟩

end Service
end InferenceCluster
