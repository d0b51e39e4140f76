import InferenceCluster.Sanity.Heartbeat
import InferenceCluster.Spec.HeartbeatThreads

/-! What the sections of the polling thread can do, and what holds between any two of them. -/

namespace InferenceCluster

namespace HeartbeatMonitor

theorem run_append (m : HeartbeatMonitor) (events more : List MonitorEvent) :
    (m.run (events ++ more)).1 = ((m.run events).1.run more).1 := by
  induction more using List.reverseRecOn with
  | nil => rw [List.append_nil]; rfl
  | append_singleton more e ih =>
    rw [← List.append_assoc]
    cases e with
    | register nodeId address => rw [run_concat_register, run_concat_register, ih]
    | check nodeId success => rw [run_concat_check, run_concat_check, ih]

theorem check_eq_record {m : HeartbeatMonitor} {nodeId : String} {n : NodeHealth}
    (hn : m.nodes.get? nodeId = some n) (success : Bool) :
    m.check nodeId success = ({ m with nodes := m.nodes.set nodeId (m.record nodeId n success).1 },
      (m.record nodeId n success).2) := by
  rw [check, hn]

end HeartbeatMonitor

namespace HeartbeatThreads

/-- The steps, one constructor for each section and outcome. -/
inductive Stepped (s : HeartbeatThreads) : HeartbeatEvent → HeartbeatThreads → Prop
  | started (hl : s.loop = .notStarted) :
      Stepped s .start { s with running := true, loop := .loopTop }
  | stopped : Stepped s .stop { s with running := false }
  | registered {nodeId address : String} : Stepped s (.register nodeId address) { s with
      monitor := s.monitor.register nodeId address
      log := s.log ++ [.register nodeId address] }
  | lookedAt (hl : s.loop = .loopTop) :
      Stepped s .advance { s with loop := if s.running then .snapshot else .exited }
  | began (hl : s.loop = .snapshot) : Stepped s .advance
      { s with loop := .checking s.monitor.nodes.keys, rounds := s.rounds + 1 }
  | ended (hl : s.loop = .checking []) : Stepped s .advance { s with loop := .loopTop }
  | unknown {nodeId : String} {todo : List String} (hl : s.loop = .checking (nodeId :: todo))
      (hn : s.monitor.nodes.get? nodeId = none) :
      Stepped s .advance { s with loop := .checking todo }
  | asked {nodeId : String} {todo : List String} {n : NodeHealth}
      (hl : s.loop = .checking (nodeId :: todo)) (hn : s.monitor.nodes.get? nodeId = some n) :
      Stepped s .advance { s with loop := .probing nodeId n.address todo }
  | recorded {nodeId address : String} {todo : List String} {n : NodeHealth} {success : Bool}
      (hl : s.loop = .probing nodeId address todo) (hn : s.monitor.nodes.get? nodeId = some n) :
      Stepped s (.answer success) { s with
        monitor := (s.monitor.check nodeId success).1
        loop := .checking todo
        pending := s.pending ++ (s.monitor.check nodeId success).2.toList
        log := s.log ++ [.check nodeId success] }
  | crashed {nodeId address : String} {todo : List String} {success : Bool}
      {e : PyDict.KeyError String} (hl : s.loop = .probing nodeId address todo)
      (hn : s.monitor.nodes.get? nodeId = none) :
      Stepped s (.answer success) { s with loop := .crashed e }

theorem stepped {s s' : HeartbeatThreads} {e : HeartbeatEvent} (h : s.step e = some s') :
    Stepped s e s' := by
  cases e with
  | start =>
    simp only [step] at h
    split at h
    · rename_i hl
      exact Option.some.inj h ▸ .started hl
    · cases h
  | stop => exact Option.some.inj h ▸ .stopped
  | register nodeId address => exact Option.some.inj h ▸ .registered
  | advance =>
    simp only [step, advance] at h
    split at h
    · rename_i hl
      exact Option.some.inj h ▸ .lookedAt hl
    · rename_i hl
      exact Option.some.inj h ▸ .began hl
    · rename_i hl
      exact Option.some.inj h ▸ .ended hl
    · rename_i nodeId todo hl
      obtain rfl := Option.some.inj h
      cases hn : s.monitor.nodes.get? nodeId with
      | none => exact .unknown hl hn
      | some n => exact .asked hl hn
    · cases h
  | answer success =>
    simp only [step, answer] at h
    split at h
    · rename_i nodeId address todo hl
      cases hn : s.monitor.nodes.get? nodeId with
      | none =>
        rw [PyDict.getItem, hn] at h
        exact Option.some.inj h ▸ .crashed hl hn
      | some n =>
        rw [PyDict.getItem_of_get? hn] at h
        obtain rfl := Option.some.inj h
        have hrec : Stepped s (.answer success) _ := .recorded hl hn
        rw [HeartbeatMonitor.check_eq_record hn] at hrec
        exact hrec
    · cases h

/-- What holds between any two steps: the monitor is what the log makes of it, and the round
knows registered nodes only, each of them once. -/
structure Kept (failureThreshold recoveryThreshold : ℤ) (s : HeartbeatThreads) : Prop where
  failure : s.monitor.failureThreshold = failureThreshold
  recovery : s.monitor.recoveryThreshold = recoveryThreshold
  logged : HeartbeatMonitor.run { failureThreshold, recoveryThreshold } s.log =
    (s.monitor, s.pending)
  registered : ∀ nodeId ∈ s.loop.todo, s.monitor.nodes.contains nodeId = true
  once : s.loop.todo.Nodup
  alive : ∀ e, s.loop ≠ .crashed e

variable {failureThreshold recoveryThreshold : ℤ} {s s' t : HeartbeatThreads}

theorem contains_step {e : HeartbeatEvent} (hs : Stepped s e s') {nodeId : String}
    (h : s.monitor.nodes.contains nodeId = true) : s'.monitor.nodes.contains nodeId = true := by
  cases hs with
  | @registered k address =>
    rw [PyDict.contains, HeartbeatMonitor.register, PyDict.get?_set]
    split_ifs
    · rfl
    · exact h
  | @recorded k _ _ n success hl hn =>
    rw [HeartbeatMonitor.check_eq_record hn, PyDict.contains, PyDict.get?_set]
    split_ifs
    · rfl
    · exact h
  | _ => exact h

/-- The node that is asked is registered. -/
theorem Kept.probed (h : Kept failureThreshold recoveryThreshold s) {nodeId address : String}
    {todo : List String} (hl : s.loop = .probing nodeId address todo)
    (hn : s.monitor.nodes.get? nodeId = none) : False := by
  have htodo := h.registered
  rw [hl] at htodo
  have hmem := htodo nodeId List.mem_cons_self
  rw [PyDict.contains, hn] at hmem
  cases hmem

/-- The round goes on knowing registered nodes only. -/
theorem todo_step {e : HeartbeatEvent} (hs : Stepped s e s')
    (h : ∀ nodeId ∈ s.loop.todo, s.monitor.nodes.contains nodeId = true) :
    ∀ nodeId ∈ s'.loop.todo, s'.monitor.nodes.contains nodeId = true := by
  have hreg : ∀ nodeId, s.monitor.nodes.contains nodeId = true →
      s'.monitor.nodes.contains nodeId = true := fun nodeId => contains_step hs
  cases hs with
  | started hl | ended hl | crashed hl => exact fun _ hm => absurd hm List.not_mem_nil
  | stopped => exact h
  | registered => exact fun k hk => hreg k (h k hk)
  | lookedAt hl => dsimp only; split_ifs <;> simp [LoopPoint.todo]
  | began hl =>
    exact fun k hk => (PyDict.contains_iff _ _).mpr ((PyDict.mem_keys_iff _ _).mp hk)
  | unknown hl =>
    rw [hl] at h
    exact fun k hk => h k (List.mem_cons_of_mem _ hk)
  | asked hl =>
    rw [hl] at h
    exact h
  | recorded hl =>
    rw [hl] at h
    exact fun k hk => hreg k (h k (List.mem_cons_of_mem _ hk))

theorem Kept.step {e : HeartbeatEvent} (h : Kept failureThreshold recoveryThreshold s)
    (hs : Stepped s e s') : Kept failureThreshold recoveryThreshold s' := by
  have htodo := todo_step hs h.registered
  have honce := h.once
  cases hs with
  | started hl | ended hl =>
    exact ⟨h.failure, h.recovery, h.logged, htodo, List.nodup_nil, fun e heq => by cases heq⟩
  | stopped => exact ⟨h.failure, h.recovery, h.logged, htodo, h.once, h.alive⟩
  | registered =>
    refine ⟨h.failure, h.recovery, ?_, htodo, h.once, h.alive⟩
    rw [HeartbeatMonitor.run_concat_register, h.logged]
  | lookedAt hl =>
    refine ⟨h.failure, h.recovery, h.logged, htodo, ?_, ?_⟩ <;> dsimp only <;> split_ifs <;>
      simp [LoopPoint.todo]
  | began hl =>
    exact ⟨h.failure, h.recovery, h.logged, htodo, s.monitor.nodes.nodup,
      fun e heq => by cases heq⟩
  | unknown hl hn =>
    rw [hl] at honce
    exact ⟨h.failure, h.recovery, h.logged, htodo, (List.nodup_cons.mp honce).2,
      fun e heq => by cases heq⟩
  | asked hl hn =>
    rw [hl] at honce
    exact ⟨h.failure, h.recovery, h.logged, htodo, honce, fun e heq => by cases heq⟩
  | recorded hl hn =>
    rw [hl] at honce
    refine ⟨?_, ?_, ?_, htodo, (List.nodup_cons.mp honce).2, fun e heq => by cases heq⟩
    · rw [HeartbeatMonitor.check_failureThreshold, h.failure]
    · rw [HeartbeatMonitor.check_recoveryThreshold, h.recovery]
    · rw [HeartbeatMonitor.run_concat_check, h.logged]
  | crashed hl hn =>
    exact (h.probed hl hn).elim

theorem kept_of_run {events : List HeartbeatEvent}
    (h : (machine failureThreshold recoveryThreshold).Run events s) :
    Kept failureThreshold recoveryThreshold s := by
  refine Machine.Reachable.invariant (I := Kept failureThreshold recoveryThreshold) ?_
    (fun _ _ _ hI hs => hI.step (stepped hs)) ⟨events, h⟩
  exact ⟨rfl, rfl, rfl, fun _ hm => absurd hm List.not_mem_nil, List.nodup_nil,
    fun e heq => by cases heq⟩

end HeartbeatThreads
end InferenceCluster
