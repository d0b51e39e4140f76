import InferenceCluster.Lib.Progress
import InferenceCluster.Proofs.CallbacksMirror
import InferenceCluster.Sanity.HeartbeatThreads
import InferenceCluster.Spec.Router

/-! What the polling thread finds out, and when. Every round records every node once, so a node
that answers the same for some rounds has the status that goes with it, whatever it had before. -/

namespace InferenceCluster

namespace HeartbeatMonitor

/-- Failures do not bring a node up. -/
theorem follow_stays_down (m : HeartbeatMonitor) (nodeId : String) {n : NodeHealth}
    (hdown : n.status ≠ .healthy) (k : ℕ) :
    (follow m nodeId n (List.replicate k false)).1.status ≠ .healthy := by
  induction k with
  | zero => exact hdown
  | succ k ih =>
    obtain ⟨cb, hr⟩ := follow_recorded m nodeId n (List.replicate k false) false
    rw [← List.replicate_succ'] at hr
    cases hr with
    | stillDown hs hs' _ => exact hs' ▸ hs
    | failing hs | down hs => exact absurd hs ih

/-- Enough checks in a row with one outcome decide the status. -/
theorem follow_replicate {m : HeartbeatMonitor} (nodeId : String) (n : NodeHealth) {k : ℕ}
    {b : Bool} (hk : max 1 (if b then m.recoveryThreshold else m.failureThreshold) ≤ (k : ℤ)) :
    (follow m nodeId n (List.replicate k b)).1.status = .healthy ↔ b = true := by
  have hone : 0 < k := by
    have := (le_max_left _ _).trans hk
    omega
  have hle := (le_max_right _ _).trans hk
  cases b with
  | true =>
    refine iff_of_true ((follow_successes m nodeId n k).resolve_right fun h => ?_) rfl
    obtain ⟨hstreak, hlt⟩ := h.2 hone
    exact (hle.trans hstreak).not_gt hlt
  | false =>
    refine iff_of_false (fun hup => ?_) Bool.false_ne_true
    by_cases hn : n.status = .healthy
    · rcases follow_failures m nodeId hn k with hdown | ⟨-, h⟩
      · rw [hup] at hdown
        cases hdown
      · obtain ⟨hstreak, hlt⟩ := h hone
        have hneg := (abs_lt.mp (hlt.trans_le hle)).1
        omega
    · exact follow_stays_down m nodeId hn k hup

end HeartbeatMonitor

/-- `route` returns healthy nodes only, whatever the ring. -/
theorem isHealthy_of_route {digest : String → ℕ} {ring : ConsistentHashRing}
    {monitor : HeartbeatMonitor} {sessionId : String} {node : Node}
    (h : route digest ring monitor sessionId = .ok node) :
    monitor.isHealthy node.nodeId = true := by
  unfold route at h
  split at h
  · cases h
  · split at h
    · rename_i candidates _ n hfind
      obtain rfl := Except.ok.inj h
      simpa using List.find?_some hfind
    · cases h

namespace HeartbeatThreads

variable {failureThreshold recoveryThreshold : ℤ} {s s' t : HeartbeatThreads}

/-- The event records an answer of the node. -/
def checks (nodeId : String) : MonitorEvent → Bool
  | .register _ _ => false
  | .check k _ => k = nodeId

/-- One step: a round begun is a check made or still to be made. -/
theorem rounds_step {e : HeartbeatEvent} (h : Kept failureThreshold recoveryThreshold s)
    (hs : Stepped s e s') {nodeId : String} (hreg : s.monitor.nodes.contains nodeId = true) :
    ∃ more, s'.log = s.log ++ more ∧ s'.rounds + s.loop.todo.count nodeId =
      s.rounds + more.countP (checks nodeId) + s'.loop.todo.count nodeId := by
  obtain ⟨entry, hentry⟩ := (PyDict.contains_iff _ _).mp hreg
  cases hs with
  | started hl | ended hl => exact ⟨[], by simp, by simp [hl, LoopPoint.todo]⟩
  | stopped => exact ⟨[], by simp, by simp⟩
  | registered => exact ⟨_, rfl, by simp [checks]⟩
  | lookedAt hl =>
    refine ⟨[], by simp, ?_⟩
    dsimp only
    split_ifs <;> simp [hl, LoopPoint.todo]
  | began hl =>
    have hcount : s.monitor.nodes.keys.count nodeId = 1 :=
      List.count_eq_one_of_mem s.monitor.nodes.nodup ((PyDict.mem_keys_iff _ _).mpr ⟨_, hentry⟩)
    refine ⟨[], by simp, ?_⟩
    simp only [hl, LoopPoint.todo, hcount, List.count_nil, List.countP_nil]
  | @unknown k todo hl hn =>
    have hne : k ≠ nodeId := by
      rintro rfl
      rw [hentry] at hn
      cases hn
    exact ⟨[], by simp, by simp [hl, LoopPoint.todo, List.count_cons_of_ne hne]⟩
  | asked hl => exact ⟨[], by simp, by simp [hl, LoopPoint.todo]⟩
  | @recorded k _ todo _ success hl =>
    refine ⟨_, rfl, ?_⟩
    simp only [hl, LoopPoint.todo, List.countP_singleton, checks, List.count_cons, beq_iff_eq,
      decide_eq_true_iff]
    omega
  | crashed hl hn =>
    exact (h.probed hl hn).elim

theorem rounds_exec {before after : List HeartbeatEvent}
    (hs : (machine failureThreshold recoveryThreshold).Run before s)
    (ht : (machine failureThreshold recoveryThreshold).Run (before ++ after) t) {nodeId : String}
    (hreg : s.monitor.nodes.contains nodeId = true) :
    ∃ more, t.log = s.log ++ more ∧ t.rounds + s.loop.todo.count nodeId =
      s.rounds + more.countP (checks nodeId) + t.loop.todo.count nodeId := by
  have hJ : Kept failureThreshold recoveryThreshold t ∧
      t.monitor.nodes.contains nodeId = true ∧ ∃ more, t.log = s.log ++ more ∧
        t.rounds + s.loop.todo.count nodeId =
          s.rounds + more.countP (checks nodeId) + t.loop.todo.count nodeId := by
    refine Machine.exec_invariant _ (J := fun u => Kept failureThreshold recoveryThreshold u ∧
      u.monitor.nodes.contains nodeId = true ∧ ∃ more, u.log = s.log ++ more ∧
        u.rounds + s.loop.todo.count nodeId =
          s.rounds + more.countP (checks nodeId) + u.loop.todo.count nodeId) ?_
      ⟨kept_of_run hs, hreg, [], by simp, by simp⟩ (Machine.exec_of_run _ hs ht)
    rintro u e u' - ⟨hkept, hregu, more, hlog, heq⟩ hu
    obtain ⟨one, hlog', heq'⟩ := rounds_step hkept (stepped hu) hregu
    refine ⟨hkept.step (stepped hu), contains_step (stepped hu) hregu, more ++ one, ?_, ?_⟩
    · rw [hlog', hlog, List.append_assoc]
    · rw [List.countP_append]
      omega
  exact hJ.2.2

/-- The thread does what a sequence of whole checks would do. Over any part of a run each round
begun is one check of the node, made or still to be made, and the thread does not die. -/
theorem polls_in_rounds {before after : List HeartbeatEvent}
    (hs : (machine failureThreshold recoveryThreshold).Run before s)
    (ht : (machine failureThreshold recoveryThreshold).Run (before ++ after) t) {nodeId : String}
    (hreg : s.monitor.nodes.contains nodeId = true) :
    HeartbeatMonitor.run { failureThreshold, recoveryThreshold } t.log = (t.monitor, t.pending) ∧
    (∀ e, t.loop ≠ .crashed e) ∧
    ∃ more, t.log = s.log ++ more ∧
      t.rounds + s.loop.todo.count nodeId =
        s.rounds + more.countP (checks nodeId) + t.loop.todo.count nodeId ∧
      s.loop.todo.count nodeId ≤ 1 ∧ t.loop.todo.count nodeId ≤ 1 := by
  have hkept := kept_of_run hs
  have hkept' := kept_of_run ht
  obtain ⟨more, hlog, heq⟩ := rounds_exec hs ht hreg
  exact ⟨hkept'.logged, hkept'.alive, more, hlog, heq,
    List.nodup_iff_count_le_one.mp hkept.once _, List.nodup_iff_count_le_one.mp hkept'.once _⟩

/-! ### What the rounds find out -/

theorem length_outcomes {nodeId : String} {events : List MonitorEvent}
    (once : ∀ address, MonitorEvent.register nodeId address ∉ events) :
    (outcomes nodeId events).length = events.countP (checks nodeId) := by
  induction events using List.reverseRecOn with
  | nil => rfl
  | append_singleton events e ih =>
    have ih := ih fun address h => once address (List.mem_append_left _ h)
    rw [List.countP_append, List.countP_singleton, ← ih]
    cases e with
    | register k address =>
      have hk : k ≠ nodeId := by
        rintro rfl
        exact once address (List.mem_append_right _ (List.mem_singleton_self _))
      rw [HeartbeatMonitor.outcomes_concat_register, if_neg hk]
      rfl
    | check k success =>
      rw [HeartbeatMonitor.outcomes_concat_check]
      by_cases hk : k = nodeId <;> simp [checks, hk]

/-- A node that has been registered and has answered the same for more rounds than the threshold
of that answer is healthy exactly if it was a success, whatever there was before and whatever the
other threads do; a node that fails gets no request of any session. -/
theorem health_converges {before after : List HeartbeatEvent}
    (hs : (machine failureThreshold recoveryThreshold).Run before s)
    (ht : (machine failureThreshold recoveryThreshold).Run (before ++ after) t) {nodeId : String}
    (hreg : s.monitor.nodes.contains nodeId = true) {more : List MonitorEvent}
    (hlog : t.log = s.log ++ more) (once : ∀ address, MonitorEvent.register nodeId address ∉ more)
    {b : Bool} (hall : ∀ success ∈ outcomes nodeId more, success = b)
    (hrounds : s.rounds + max 1 (if b then recoveryThreshold else failureThreshold) < t.rounds) :
    t.monitor.isHealthy nodeId = b ∧
    (b = false → ∀ digest ring sessionId node,
      route digest ring t.monitor sessionId = .ok node → node.nodeId ≠ nodeId) := by
  have hkept := kept_of_run hs
  obtain ⟨more', hlog', heq⟩ := rounds_exec hs ht hreg
  obtain rfl := List.append_cancel_left (hlog.symm.trans hlog')
  have hcount := List.nodup_iff_count_le_one.mp (kept_of_run ht).once nodeId
  have hmonitor : t.monitor = (s.monitor.run more).1 := by
    have hlogged := congrArg Prod.fst (kept_of_run ht).logged
    rw [hlog, HeartbeatMonitor.run_append, hkept.logged] at hlogged
    exact hlogged.symm
  obtain ⟨n, hn⟩ := (PyDict.contains_iff _ _).mp hreg
  have hget := (HeartbeatMonitor.run_follow hn once).1
  rw [List.eq_replicate_of_mem hall, length_outcomes once, ← hmonitor] at hget
  have hhealthy : t.monitor.isHealthy nodeId = b := by
    rw [Bool.eq_iff_iff, HeartbeatMonitor.isHealthy_of_get? hget]
    refine HeartbeatMonitor.follow_replicate nodeId n ?_
    rw [hkept.failure, hkept.recovery]
    omega
  refine ⟨hhealthy, ?_⟩
  rintro rfl digest ring sessionId node hroute rfl
  rw [isHealthy_of_route hroute] at hhealthy
  cases hhealthy

/-- A round with one node. -/
def round (success : Bool) : List HeartbeatEvent :=
  [.advance, .advance, .advance, .answer success, .advance]

def cameUp : List HeartbeatEvent :=
  [.register "worker-a" "http://127.0.0.1:8001", .start] ++ round true ++ round true

/-- A second node is registered while the first one is asked. -/
def wentDown : List HeartbeatEvent :=
  [.advance, .advance, .advance, .register "worker-b" "http://127.0.0.1:8002", .answer false,
    .advance] ++ (List.replicate 3 [.advance, .advance, .advance, .answer false, .advance,
      .answer true, .advance]).flatten

theorem polls_in_rounds_wentDown : ∃ s t, (machine 3 2).Run cameUp s ∧
    (machine 3 2).Run (cameUp ++ wentDown) t ∧ (s.rounds, t.rounds) = (2, 6) ∧
    ∃ more, t.log = s.log ++ more ∧ t.rounds + s.loop.todo.count "worker-a" =
      s.rounds + more.countP (checks "worker-a") + t.loop.todo.count "worker-a" := by
  obtain ⟨s, hs, hreg, hrounds⟩ : ∃ s, (machine 3 2).exec (machine 3 2).init cameUp = some s ∧
      s.monitor.nodes.contains "worker-a" = true ∧ s.rounds = 2 := ⟨_, rfl, rfl, rfl⟩
  obtain ⟨t, ht, hrounds'⟩ : ∃ t, (machine 3 2).exec (machine 3 2).init (cameUp ++ wentDown) =
      some t ∧ t.rounds = 6 := ⟨_, rfl, rfl⟩
  have hrs := (Machine.run_iff_exec _).mpr hs
  have hrt := (Machine.run_iff_exec _).mpr ht
  obtain ⟨-, -, more, hlog, heq, -⟩ := polls_in_rounds hrs hrt hreg
  exact ⟨s, t, hrs, hrt, by rw [hrounds, hrounds'], more, hlog, heq⟩

theorem health_converges_wentDown : ∃ s t, (machine 3 2).Run cameUp s ∧
    (machine 3 2).Run (cameUp ++ wentDown) t ∧ s.monitor.isHealthy "worker-a" = true ∧
    t.monitor.isHealthy "worker-a" = false ∧ ∀ digest ring sessionId node,
      route digest ring t.monitor sessionId = .ok node → node.nodeId ≠ "worker-a" := by
  obtain ⟨s, hs, hreg, hup, hrounds, hslog⟩ : ∃ s, (machine 3 2).exec (machine 3 2).init cameUp =
      some s ∧ s.monitor.nodes.contains "worker-a" = true ∧
      s.monitor.isHealthy "worker-a" = true ∧ s.rounds = 2 ∧
      s.log = [.register "worker-a" "http://127.0.0.1:8001", .check "worker-a" true,
        .check "worker-a" true] := ⟨_, rfl, rfl, rfl, rfl, rfl⟩
  obtain ⟨t, ht, hrounds', htlog⟩ : ∃ t, (machine 3 2).exec (machine 3 2).init
      (cameUp ++ wentDown) = some t ∧ t.rounds = 6 ∧
      t.log = [.register "worker-a" "http://127.0.0.1:8001", .check "worker-a" true,
        .check "worker-a" true] ++ [.register "worker-b" "http://127.0.0.1:8002",
        .check "worker-a" false, .check "worker-a" false, .check "worker-b" true,
        .check "worker-a" false, .check "worker-b" true, .check "worker-a" false,
        .check "worker-b" true] := ⟨_, rfl, rfl, rfl⟩
  have hrs := (Machine.run_iff_exec _).mpr hs
  have hrt := (Machine.run_iff_exec _).mpr ht
  obtain ⟨hdown, hroute⟩ := health_converges hrs hrt hreg
    (htlog.trans (congrArg (· ++ _) hslog.symm)) (by simp) (b := false) (by decide)
    (by rw [hrounds, hrounds']; decide)
  exact ⟨s, t, hrs, hrt, hup, hdown, hroute rfl⟩

end HeartbeatThreads
end InferenceCluster
