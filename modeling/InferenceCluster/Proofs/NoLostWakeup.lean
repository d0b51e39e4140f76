import InferenceCluster.Lib.Progress
import InferenceCluster.Proofs.PriorityOrder
import InferenceCluster.Spec.QueueThreads
import Mathlib.Data.List.Nodup

/-! No lost wakeup. While a thread sleeps in `pop`, every request on the heap has a notified
thread on its way to it; and the threads together are a queue whose calls are atomic. -/

namespace InferenceCluster

variable {K : Type} [LinearOrder K]

theorem PriorityQueue.popBatchLoop_length_le (maxSize : ℤ) (fuel : ℕ) (heap batch : List (Request K)) :
    (popBatchLoop maxSize fuel heap batch).2.length ≤ heap.length := by
  induction fuel generalizing heap batch with
  | zero => exact le_rfl
  | succ fuel ih =>
    simp only [popBatchLoop]
    cases hp : Heapq.heappop Request.lt heap with
    | none => exact le_rfl
    | some r =>
      have hlen := (Heapq.heappop_perm _ hp).length_eq
      dsimp only
      split_ifs
      · have hrest := ih r.2 (batch ++ [r.1])
        rw [List.length_cons] at hlen
        omega
      · exact le_rfl

namespace QueueThreads

/-- Of the requests on the heap, no more than there are notified threads, unless all threads
are awake. -/
def Claimed (s : QueueThreads K) : Prop :=
  s.waiters ≠ [] → s.queue.heap.length ≤ s.notified.length

/-- Nobody waits twice. -/
def Distinct (s : QueueThreads K) : Prop := (s.waiters.map Prod.fst ++ s.notified).Nodup

omit [LinearOrder K] in
theorem inPop_iff (s : QueueThreads K) (thread : ℕ) :
    s.inPop thread = true ↔ thread ∈ s.waiters.map Prod.fst ++ s.notified := by
  simp [inPop]

/-- How a turn of the loop ends. -/
theorem turn_cases (s : QueueThreads K) (thread : ℕ) (expired : Bool) :
    (∃ request q, s.queue.heap.Perm (request :: q.heap) ∧
      s.turn thread expired = { s with
        queue := q
        handedOut := s.handedOut ++ [request]
        returned := s.returned ++ [(thread, some request)] }) ∨
    (s.queue.heap = [] ∧ expired = true ∧
      s.turn thread expired = { s with returned := s.returned ++ [(thread, none)] }) ∨
    (s.queue.heap = [] ∧ expired = false ∧
      s.turn thread expired = { s with waiters := s.waiters ++ [(thread, false)] }) := by
  unfold turn
  rcases s.queue.pop_cases expired with ⟨request, q, hperm, hp⟩ | ⟨hnil, hp⟩
  · exact .inl ⟨request, q, hperm, by rw [hp]; rfl⟩
  · cases expired with
    | true => exact .inr (.inl ⟨hnil, rfl, by rw [hp]; simp⟩)
    | false => exact .inr (.inr ⟨hnil, rfl, by rw [hp]; rfl⟩)

variable {s s' : QueueThreads K}

/-- The thread that takes a turn may have been one of the notified ones. -/
theorem claimed_turn {thread : ℕ} {expired : Bool}
    (h : s.waiters ≠ [] → s.queue.heap.length ≤ s.notified.length + 1) :
    (s.turn thread expired).Claimed := by
  rcases s.turn_cases thread expired with ⟨request, q, hperm, heq⟩ | ⟨hnil, -, heq⟩ | ⟨hnil, -, heq⟩
  · rw [heq]
    intro hne
    have hle := h hne
    have hlen := hperm.length_eq
    rw [List.length_cons] at hlen
    dsimp only
    omega
  · rw [heq]
    exact fun _ => by simp [hnil]
  · rw [heq]
    exact fun _ => by simp [hnil]

theorem distinct_turn {thread : ℕ} {expired : Bool} (h : s.Distinct)
    (hnot : s.inPop thread = false) : (s.turn thread expired).Distinct := by
  rcases s.turn_cases thread expired with ⟨request, q, -, heq⟩ | ⟨-, -, heq⟩ | ⟨-, -, heq⟩
  · rwa [heq]
  · rwa [heq]
  · rw [heq]
    have hnot' : thread ∉ s.waiters.map Prod.fst ++ s.notified := by
      rw [← inPop_iff, hnot]
      exact Bool.false_ne_true
    have hperm : ((s.waiters ++ [(thread, false)]).map Prod.fst ++ s.notified).Perm
        (thread :: (s.waiters.map Prod.fst ++ s.notified)) := by
      rw [List.map_append, List.append_assoc]
      exact List.perm_middle
    exact hperm.nodup_iff.mpr (List.nodup_cons.mpr ⟨hnot', h⟩)

theorem claimed_push (h : s.Claimed) (request : Request K) : (s.push request).Claimed := by
  have hlen := (s.queue.push_perm request).length_eq
  rw [List.length_cons] at hlen
  unfold push notify
  cases hw : s.waiters with
  | nil => exact fun hne => absurd rfl hne
  | cons w waiters =>
    intro _
    have hle := h (by simp [hw])
    simp only [List.length_append, List.length_singleton]
    omega

theorem distinct_push (h : s.Distinct) (request : Request K) : (s.push request).Distinct := by
  unfold push notify
  cases hw : s.waiters with
  | nil => simpa [Distinct, hw] using h
  | cons w waiters =>
    rw [Distinct, hw, List.map_cons, List.cons_append] at h
    have hperm : (waiters.map Prod.fst ++ (s.notified ++ [w.1])).Perm
        (w.1 :: (waiters.map Prod.fst ++ s.notified)) := by
      rw [← List.append_assoc]
      exact List.perm_append_singleton _ _
    exact hperm.nodup_iff.mpr h

/-- What holds of the thread that has the lock again, just before its turn. -/
theorem resume_cases {thread : ℕ} {expired : Bool} (h : s.Claimed) (hd : s.Distinct)
    (hs : s.resume thread expired = some s') :
    ∃ u : QueueThreads K, s' = u.turn thread expired ∧ u.Distinct ∧ u.inPop thread = false ∧
      u.queue = s.queue ∧ u.pushed = s.pushed ∧ u.handedOut = s.handedOut ∧
      u.returned = s.returned ∧
      (u.waiters ≠ [] → u.queue.heap.length ≤ u.notified.length + 1) := by
  unfold resume at hs
  split_ifs at hs with hmem hmem'
  · obtain rfl := Option.some.inj hs
    have hperm : (s.waiters.map Prod.fst ++ s.notified).Perm
        (thread :: (s.waiters.map Prod.fst ++ s.notified.erase thread)) :=
      ((List.perm_cons_erase hmem).append_left _).trans List.perm_middle
    obtain ⟨hnot, hnd⟩ := List.nodup_cons.mp (hperm.nodup_iff.mp hd)
    refine ⟨_, rfl, hnd, ?_, rfl, rfl, rfl, rfl, fun hne => ?_⟩
    · rwa [← Bool.not_eq_true, inPop_iff]
    · have hle := h hne
      have hpos := List.length_pos_of_mem hmem
      rw [List.length_erase_of_mem hmem]
      dsimp only
      omega
  · obtain rfl := Option.some.inj hs
    have hperm : (s.waiters.map Prod.fst ++ s.notified).Perm
        (thread :: ((s.waiters.erase (thread, true)).map Prod.fst ++ s.notified)) :=
      ((List.perm_cons_erase hmem').map Prod.fst).append_right _
    obtain ⟨hnot, hnd⟩ := List.nodup_cons.mp (hperm.nodup_iff.mp hd)
    refine ⟨_, rfl, hnd, ?_, rfl, rfl, rfl, rfl, fun hne => ?_⟩
    · rwa [← Bool.not_eq_true, inPop_iff]
    · have hle := h fun hnil => hne (by simp [hnil])
      exact Nat.le_succ_of_le hle

theorem map_fst_timeUp (waiters : List (ℕ × Bool)) (thread : ℕ) :
    (waiters.map fun w => if w = (thread, false) then (thread, true) else w).map Prod.fst =
      waiters.map Prod.fst := by
  rw [List.map_map]
  apply List.map_congr_left
  intro w _
  simp only [Function.comp]
  split_ifs with hw
  · rw [hw]
  · rfl

theorem step_claimed (h : s.Claimed ∧ s.Distinct) {e : QueueEvent K}
    (hs : s.step e = some s') : s'.Claimed ∧ s'.Distinct := by
  cases e with
  | push request =>
    obtain rfl := Option.some.inj hs
    exact ⟨claimed_push h.1 request, distinct_push h.2 request⟩
  | pop thread expired =>
    simp only [step] at hs
    split_ifs at hs with hin
    obtain rfl := Option.some.inj hs
    exact ⟨claimed_turn fun hne => Nat.le_succ_of_le (h.1 hne),
      distinct_turn h.2 (Bool.eq_false_iff.mpr hin)⟩
  | timeUp thread =>
    simp only [step] at hs
    split_ifs at hs
    obtain rfl := Option.some.inj hs
    refine ⟨fun hne => h.1 fun hnil => hne (by simp [hnil]), ?_⟩
    rw [Distinct, map_fst_timeUp]
    exact h.2
  | resume thread expired =>
    obtain ⟨u, rfl, hd, hnot, -, -, -, -, hle⟩ := resume_cases h.1 h.2 hs
    exact ⟨claimed_turn hle, distinct_turn hd hnot⟩
  | popBatch maxSize =>
    obtain rfl := Option.some.inj hs
    refine ⟨fun hne => le_trans ?_ (h.1 hne), h.2⟩
    exact PriorityQueue.popBatchLoop_length_le _ _ _ _

/-- The queue as its threads see it: nobody sleeps while a request is on the heap that no
thread is on its way to, and `None` is returned for an empty heap only. -/
structure NoLostWakeup (s : QueueThreads K) : Prop where
  claimed : s.waiters ≠ [] → s.queue.heap.length ≤ s.notified.length
  served : ∀ thread ∈ s.notified, s.queue.heap ≠ [] → ∀ expired, ∃ request s',
    s.step (.resume thread expired) = some s' ∧
      s'.returned = s.returned ++ [(thread, some request)]
  /-- Where one thread only calls `pop`, it does not sleep beside a request at all. -/
  alone : ∀ thread, (∀ t, s.inPop t = true → t = thread) → s.waiters ≠ [] → s.queue.heap = []
  timedOut : ∀ e s' thread, s.step e = some s' →
    s'.returned = s.returned ++ [(thread, none)] →
      s.queue.heap = [] ∧ (e = .pop thread true ∨ e = .resume thread true)

theorem turn_none {thread t : ℕ} {expired : Bool}
    (h : (s.turn thread expired).returned = s.returned ++ [(t, none)]) :
    s.queue.heap = [] ∧ thread = t ∧ expired = true := by
  rcases s.turn_cases thread expired with ⟨request, q, -, heq⟩ | ⟨hnil, he, heq⟩ | ⟨-, -, heq⟩
  · rw [heq] at h
    simp at h
  · rw [heq] at h
    have hlast := List.append_cancel_left h
    simp only [List.cons.injEq, Prod.mk.injEq] at hlast
    exact ⟨hnil, hlast.1.1, he⟩
  · rw [heq] at h
    simp at h

theorem noLostWakeup_of_claimed (h : s.Claimed) (hd : s.Distinct) : s.NoLostWakeup where
  claimed := h
  served thread hmem hne expired := by
    have hstep : s.step (.resume thread expired) =
        some (turn { s with notified := s.notified.erase thread } thread expired) := by
      simp [step, resume, hmem]
    rcases turn_cases { s with notified := s.notified.erase thread } thread expired with
      ⟨request, q, -, heq⟩ | ⟨hnil, -⟩ | ⟨hnil, -⟩
    · exact ⟨request, _, hstep, by rw [heq]⟩
    · exact absurd hnil hne
    · exact absurd hnil hne
  alone thread honly hne := by
    have hle := h hne
    obtain ⟨w, hw⟩ := List.exists_mem_of_ne_nil _ hne
    have hone : ∀ t ∈ s.waiters.map Prod.fst ++ s.notified, t = thread :=
      fun t ht => honly t ((s.inPop_iff t).mpr ht)
    have hwait := List.mem_map_of_mem (f := Prod.fst) hw
    have hnil : s.notified = [] := by
      by_contra hn
      obtain ⟨t, ht⟩ := List.exists_mem_of_ne_nil _ hn
      have hw' := hone w.1 (List.mem_append_left _ hwait)
      have ht' := hone t (List.mem_append_right _ ht)
      exact List.disjoint_of_nodup_append hd hwait (hw'.trans ht'.symm ▸ ht)
    rw [hnil] at hle
    exact List.length_eq_zero_iff.mp (Nat.le_zero.mp hle)
  timedOut e s' t hs hr := by
    cases e with
    | push request =>
      obtain rfl := Option.some.inj hs
      unfold push notify at hr
      cases hw : s.waiters <;> simp [hw] at hr
    | pop thread expired =>
      simp only [step] at hs
      split_ifs at hs
      obtain rfl := Option.some.inj hs
      obtain ⟨hnil, rfl, rfl⟩ := turn_none hr
      exact ⟨hnil, .inl rfl⟩
    | timeUp thread =>
      simp only [step] at hs
      split_ifs at hs
      obtain rfl := Option.some.inj hs
      simp at hr
    | resume thread expired =>
      obtain ⟨u, rfl, -, -, hq, -, -, hret, -⟩ := resume_cases h hd hs
      rw [← hret] at hr
      obtain ⟨hnil, rfl, rfl⟩ := turn_none hr
      exact ⟨hq ▸ hnil, .inr rfl⟩
    | popBatch maxSize =>
      obtain rfl := Option.some.inj hs
      simp at hr

theorem claimed_of_reachable (h : (machine K).Reachable s) : s.Claimed ∧ s.Distinct :=
  Machine.Reachable.invariant (I := fun s => s.Claimed ∧ s.Distinct)
    ⟨fun hne => absurd rfl hne, List.nodup_nil⟩ (fun _ _ _ hI hs => step_claimed hI hs) h

/-- Whatever the order of the threads' sections, with any number of threads that push and pop
and calls of `wait` that time out at any moment. -/
theorem no_lost_wakeup (h : (machine K).Reachable s) : s.NoLostWakeup :=
  noLostWakeup_of_claimed (claimed_of_reachable h).1 (claimed_of_reachable h).2

/-- A request whose priority is its number. -/
def ranked (ref : ℕ) : Request ℤ :=
  { ref, prompt := "", temperature := 1, topP := 1, priority := ref, arrivalTime := 0
    requestId := "" }

/-- Two threads wait, and the request that is pushed notifies the one whose time is up. -/
def lateNotify : List (QueueEvent ℤ) := [.pop 1 false, .pop 2 false, .timeUp 1, .push (ranked 5)]

theorem no_lost_wakeup_lateNotify : ∃ s, (machine ℤ).Run lateNotify s ∧
    s.waiters = [(2, false)] ∧ s.notified = [1] ∧ s.queue.heap = [ranked 5] ∧ s.NoLostWakeup := by
  have hexec : ((machine ℤ).exec {} lateNotify).map
      (fun s => (s.waiters, s.notified, s.queue.heap)) = some ([(2, false)], [1], [ranked 5]) := by
    decide +kernel
  obtain ⟨s, hs, hparts⟩ := Option.map_eq_some_iff.mp hexec
  simp only [Prod.mk.injEq] at hparts
  have hr := (Machine.run_iff_exec _).mpr hs
  exact ⟨s, hr, hparts.1, hparts.2.1, hparts.2.2, no_lost_wakeup ⟨_, hr⟩⟩

/-! ### Atomic calls -/

/-- The call of the queue that a section completes, if any. -/
def shown (s : QueueThreads K) : QueueEvent K → Option (PriorityQueue.Op K)
  | .push request => some (.push request)
  | .pop _ expired | .resume _ expired =>
    if s.queue.heap = [] ∧ expired = false then none else some (.pop expired)
  | .timeUp _ => none
  | .popBatch maxSize => some (.popBatch maxSize)

/-- The queue of the threads, with what went in and what came out. -/
def served (s : QueueThreads K) : PriorityQueue.Served K := ⟨s.queue, s.pushed, s.handedOut⟩

theorem served_push (s : QueueThreads K) (request : Request K) :
    (s.push request).served = ⟨s.queue.push request, s.pushed ++ [request], s.handedOut⟩ := by
  unfold push notify
  cases hw : s.waiters <;> simp [served]

/-- A turn that ends in `return` is an atomic call, one that ends in `wait` does nothing. -/
theorem served_turn (s : QueueThreads K) (thread : ℕ) (expired : Bool) :
    (s.queue.heap = [] ∧ expired = false ∧ (s.turn thread expired).served = s.served) ∨
    (¬(s.queue.heap = [] ∧ expired = false) ∧
      (PriorityQueue.calls K).step s.served (.pop expired) =
        some (s.turn thread expired).served) := by
  unfold turn
  rcases s.queue.pop_cases expired with ⟨request, q, hperm, hp⟩ | ⟨hnil, hp⟩
  · refine .inr ⟨fun hw => ?_, ?_⟩
    · rw [hw.1] at hperm
      exact List.cons_ne_nil _ _ hperm.nil_eq.symm
    · simp [PriorityQueue.calls, PriorityQueue.Served.call, PriorityQueue.serve, served, hp,
        PriorityQueue.Op.pushed]
  · cases expired with
    | true =>
      simp [PriorityQueue.calls, PriorityQueue.Served.call, PriorityQueue.serve, served, hp,
        PriorityQueue.Op.pushed]
    | false => exact .inl ⟨hnil, rfl, by simp [hp, served]⟩

theorem served_step (h : (machine K).Reachable s) {e : QueueEvent K} (hs : s.step e = some s') :
    match s.shown e with
    | none => s'.served = s.served
    | some op => (PriorityQueue.calls K).step s.served op = some s'.served := by
  have hturn : ∀ (u : QueueThreads K) (thread : ℕ) (expired : Bool), u.served = s.served →
      s' = u.turn thread expired →
      match (if s.queue.heap = [] ∧ expired = false then none
        else some (PriorityQueue.Op.pop expired) : Option (PriorityQueue.Op K)) with
      | none => s'.served = s.served
      | some op => (PriorityQueue.calls K).step s.served op = some s'.served := by
    rintro u thread expired hu rfl
    have hq : u.queue = s.queue := congrArg PriorityQueue.Served.queue hu
    rcases u.served_turn thread expired with ⟨hnil, he, hsame⟩ | ⟨hnot, hcall⟩
    · rw [if_pos ⟨hq ▸ hnil, he⟩]
      exact hsame.trans hu
    · rw [if_neg (hq ▸ hnot)]
      exact hu ▸ hcall
  cases e with
  | push request =>
    obtain rfl := Option.some.inj hs
    simp only [shown, served_push]
    simp [PriorityQueue.calls, PriorityQueue.Served.call, PriorityQueue.serve, served,
      PriorityQueue.Op.pushed]
  | pop thread expired =>
    simp only [step] at hs
    split_ifs at hs
    exact hturn s thread expired rfl (Option.some.inj hs).symm
  | timeUp thread =>
    simp only [step] at hs
    split_ifs at hs
    obtain rfl := Option.some.inj hs
    rfl
  | resume thread expired =>
    obtain ⟨hc, hd⟩ := claimed_of_reachable h
    obtain ⟨u, hu, -, -, hq, hpushed, hout, -, -⟩ := resume_cases hc hd hs
    exact hturn u thread expired (by simp [served, hq, hpushed, hout]) hu
  | popBatch maxSize =>
    obtain rfl := Option.some.inj hs
    simp [shown, PriorityQueue.calls, PriorityQueue.Served.call, PriorityQueue.serve, served,
      PriorityQueue.Op.pushed]

theorem calls_of_run {events : List (QueueEvent K)} (h : (machine K).Run events s) :
    (PriorityQueue.calls K).Run (((machine K).relabel shown {} events).filterMap id) s.served := by
  have hsim : ∃ c, (PriorityQueue.calls K).Run
      (((machine K).relabel shown {} events).filterMap id) c ∧ s.served = c := by
    refine Machine.Run.simulates_hidden (n := PriorityQueue.calls K)
      (R := fun s c => s.served = c) shown rfl ?_ ?_ h
    · rintro s _ e s' hreach rfl hs hhidden
      simpa only [hhidden] using served_step hreach hs
    · rintro s _ e s' op hreach rfl hs hshown
      exact ⟨_, by simpa only [hshown] using served_step hreach hs, rfl⟩
  obtain ⟨c, hc, rfl⟩ := hsim
  exact hc

/-- A run of the threads is a run of atomic calls, in the order in which the threads had the
lock when they returned. So nothing is lost or handed out twice, and a request that is on the
heap is not overtaken by one above it. -/
theorem threads_refine_calls {events : List (QueueEvent K)} (h : (machine K).Run events s) :
    (PriorityQueue.calls K).Run (((machine K).relabel shown {} events).filterMap id) s.served ∧
      (s.handedOut ++ s.queue.heap).Perm s.pushed ∧
      ∀ first ∈ s.queue.heap, ∀ second, first.lt second = true → ∀ more t,
        (machine K).exec s more = some t →
          ∃ out, t.handedOut = s.handedOut ++ out ∧
            ∀ a b, out = a ++ second :: b → first ∈ a := by
  have hcalls := calls_of_run h
  refine ⟨hcalls, PriorityQueue.calls_perm ⟨_, hcalls⟩, fun first hf second hlt more t ht => ?_⟩
  have hcalls' := calls_of_run ((machine K).run_of_exec h ht)
  have hexec : (machine K).exec {} events = some s := (Machine.run_iff_exec _).mp h
  rw [Machine.relabel_append _ _ hexec, List.filterMap_append] at hcalls'
  obtain ⟨out, hout, -, hbefore⟩ :=
    PriorityQueue.first_before ⟨_, hcalls⟩ hf hlt (Machine.exec_of_run _ hcalls hcalls')
  exact ⟨out, hout, hbefore⟩

/-- The request that waits is taken by the thread on its way, though another is pushed. -/
theorem threads_refine_calls_lateNotify : ∃ s, (machine ℤ).Run lateNotify s ∧
    (s.handedOut ++ s.queue.heap).Perm [ranked 5] ∧
      ∀ t, (machine ℤ).exec s [.push (ranked 6), .resume 1 true] = some t →
        ∃ out, t.handedOut = s.handedOut ++ out ∧
          ∀ a b, out = a ++ ranked 6 :: b → ranked 5 ∈ a := by
  have hexec : ((machine ℤ).exec {} lateNotify).map (fun s => (s.pushed, s.queue.heap)) =
      some ([ranked 5], [ranked 5]) := by
    decide +kernel
  obtain ⟨s, hs, hparts⟩ := Option.map_eq_some_iff.mp hexec
  obtain ⟨hpushed, hheap⟩ := Prod.mk.inj hparts
  have hr := (Machine.run_iff_exec _).mpr hs
  have hmem : ranked 5 ∈ s.queue.heap := by simp [hheap]
  obtain ⟨-, hperm, hbefore⟩ := threads_refine_calls hr
  exact ⟨s, hr, hpushed ▸ hperm, hbefore _ hmem (ranked 6) (by decide) _⟩

end QueueThreads
end InferenceCluster
