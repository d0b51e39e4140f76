import InferenceCluster.Sanity.Api
import Mathlib.Algebra.Order.Field.Rat
import Mathlib.Data.Rat.Floor

/-! What an answer `drained: true` means. The drain call looks at the heap only: a request
that the worker has popped is out of its sight, although its future is pending still. -/

namespace InferenceCluster

variable {K : Type}

theorem SchedulerSystem.Books.done_iff {m : ℕ} {s : SchedulerSystem K} (h : s.Books m) {ref : ℕ}
    (hr : ref ∈ s.history.accepted) :
    (∃ o, s.futures ref = some (.finished o)) ↔ ref ∈ s.refsAt .resolved := by
  constructor
  · rintro ⟨o, ho⟩
    by_contra hres
    rw [h.pending ref hr hres] at ho
    cases ho
  · intro hres
    obtain ⟨r, hm, rfl⟩ := List.mem_map.mp hres
    exact ⟨r.2, (h.finished r hm).1⟩

namespace Server

open SchedulerSystem

/-- A drain call that has answered `drained: true` leaves no request of before it undone. -/
def Flushed (s : Server K) : Prop :=
  s.drain = .returned (.ok ⟨true, 0⟩) →
    ∀ ref ∈ s.pushedBefore, ∃ o, s.system.futures ref = some (.finished o)

/-- The drain call answers `drained: true` while the worker holds a request of before it. -/
def overlooks (s : Server K) : ServerEvent K → Bool
  | .drainReturn =>
    match s.drain with
    | .empty => s.pushedBefore.any fun ref => ref ∈ s.system.refsAt .currentBatch
    | _ => false
  | _ => false

/-- The drain call has seen the heap empty. -/
def SawEmpty (s : Server K) : Prop :=
  s.drain = .empty ∨ s.drain = .returned (.ok ⟨true, 0⟩)

/-- What is known of the requests of before the drain call. -/
structure Watched (s : Server K) : Prop where
  pushed : ∀ ref ∈ s.pushedBefore,
    ref ∈ s.system.history.accepted ∧ ref ∉ s.system.refsAt .submitting
  popped : s.SawEmpty → ∀ ref ∈ s.pushedBefore, ref ∉ s.system.refsAt .heap

/-- A pushed request stays so, and once popped it does not come back. -/
theorem Watched.forward {s : Server K} (h : s.Watched) {system : SchedulerSystem K}
    {e : SchedulerEvent K} (hf : Forward e s.system system) :
    ({ s with system } : Server K).Watched := by
  refine ⟨fun ref hr => ?_, fun hsaw ref hr hheap => ?_⟩
  · obtain ⟨hacc, hsub⟩ := h.pushed ref hr
    refine ⟨hf.accepted.subset hacc, fun hs => ?_⟩
    obtain ⟨req, hreq, rfl⟩ := List.mem_map.mp hs
    rcases hf.submitting req hreq with hs | hnew
    · exact hsub (List.mem_map_of_mem hs)
    · exact hnew hacc
  · obtain ⟨req, hreq, rfl⟩ := List.mem_map.mp hheap
    rcases hf.heap req hreq with hin | hs
    · exact h.popped hsaw _ hr (List.mem_map_of_mem hin)
    · exact (h.pushed _ hr).2 (List.mem_map_of_mem hs)

/-- Once the heap was seen empty, a request of before the call is in the worker's hands or
resolved. -/
theorem Watched.place {m : ℕ} {s : Server K} (hb : s.system.Books m) (h : s.Watched)
    (hsaw : s.SawEmpty) {ref : ℕ} (hr : ref ∈ s.pushedBefore) :
    (∃ o, s.system.futures ref = some (.finished o)) ↔ ref ∉ s.system.refsAt .currentBatch := by
  obtain ⟨hacc, hsub⟩ := h.pushed ref hr
  rw [hb.done_iff hacc]
  constructor
  · intro hres hcur
    cases hb.place_unique hres hcur
  · intro hcur
    obtain ⟨p, hp⟩ := hb.exists_place hacc
    cases p with
    | submitting => exact absurd hp hsub
    | heap => exact absurd hp (h.popped hsaw ref hr)
    | currentBatch => exact absurd hp hcur
    | resolved => exact hp

/-- What has been pushed when the call starts is neither before its push nor lost. -/
theorem Watched.drainCalled {m : ℕ} {s : Server K} (hb : s.system.Books m) :
    Watched { s with
      drain := if s.running then .polling else .returned (.error schedulerNotRunning)
      pushedBefore := s.pushed } := by
  refine ⟨fun ref hr => ?_, fun hsaw => ?_⟩
  · have hplace : ∃ p, p ≠ .submitting ∧ ref ∈ s.system.refsAt p := by
      simp only [Server.pushed, List.mem_append] at hr
      rcases hr with (hr | hr) | hr
      · exact ⟨.heap, nofun, hr⟩
      · exact ⟨.currentBatch, nofun, hr⟩
      · exact ⟨.resolved, nofun, hr⟩
    obtain ⟨p, hp, hr⟩ := hplace
    exact ⟨hb.mem_accepted hr, fun hsub => hp (hb.place_unique hr hsub)⟩
  · -- the call has only started
    simp only [SawEmpty] at hsaw
    split_ifs at hsaw <;> simp at hsaw

theorem Watched.polled {s : Server K} (h : s.Watched) (expired : Bool) :
    Watched { s with
      drain :=
        if s.system.scheduler.queue.size = 0 then .empty
        else if expired then .expired else .polling } := by
  refine ⟨h.pushed, fun hsaw ref _ hheap => ?_⟩
  simp only [SawEmpty] at hsaw
  split_ifs at hsaw with hsize
  · simp [SchedulerSystem.refsAt, List.length_eq_zero_iff.mp hsize] at hheap
  · simp at hsaw
  · simp at hsaw

/-- The return after an empty heap. -/
theorem Flushed.drained_iff {m : ℕ} {s : Server K} (hb : s.system.Books m) (hw : s.Watched)
    (hd : s.drain = .empty) :
    Flushed { s with drain := .returned (.ok ⟨true, 0⟩) } ↔ s.overlooks .drainReturn = false := by
  have hplace : ∀ ref ∈ s.pushedBefore, (∃ o, s.system.futures ref = some (.finished o)) ↔
      ref ∉ s.system.refsAt .currentBatch := fun ref hr => hw.place hb (.inl hd) hr
  simp only [overlooks, hd, List.any_eq_false, decide_eq_true_eq]
  constructor
  · exact fun hflush ref hr => (hplace ref hr).mp (hflush rfl ref hr)
  · exact fun hnone _ ref hr => (hplace ref hr).mpr (hnone ref hr)

variable [Field K] [LinearOrder K] [FloorRing K]

theorem Watched.step {m : ℕ} {s s' : Server K} (hb : s.system.Books m) (h : s.Watched)
    {e : ServerEvent K} (hok : s.allowed e = true) (hs : Stepped s e s') : s'.Watched := by
  cases hs with
  | submitted =>
    have hf := h.forward (forward_step (allowed_system (allowed_submit hok)) rfl)
    exact ⟨hf.pushed, hf.popped⟩
  | notRunning | finished | cancelled | timedOut | cleared => exact ⟨h.pushed, h.popped⟩
  | drainCalled hd => exact Watched.drainCalled hb
  | @polled expired hd => exact h.polled expired
  | drained hd => exact ⟨h.pushed, fun _ => h.popped (.inl hd)⟩
  | expired hd => exact ⟨h.pushed, fun hsaw => by simp [SawEmpty] at hsaw⟩
  | scheduled hsys => exact h.forward (forward_step (allowed_system hok) hsys)

theorem watched_of_run {maxBatchSize : ℕ} (hmax : 1 ≤ maxBatchSize) {rate burst now : K}
    {events : List (ServerEvent K)} {s : Server K}
    (h : (machine maxBatchSize rate burst now).Run events s)
    (hok : (machine maxBatchSize rate burst now).Meets (fun s e => s.allowed e) events) :
    s.Watched := by
  induction h with
  | nil => constructor <;> simp [machine]
  | snoc hr hs ih =>
    have hbefore := hok.mono (List.prefix_append _ _)
    exact (ih hbefore).step (books_of_run hmax hr hbefore) (hok.last hr) (stepped hs)

omit [FloorRing K] in
/-- Away from its own sections, the drain call's answer stays right. -/
theorem Flushed.forward {m : ℕ} {s : Server K} (hb : s.system.Books m) (hw : s.Watched)
    (h : s.Flushed) {system : SchedulerSystem K} {e : SchedulerEvent K}
    (hok : s.system.allowed e = true) (hm : 1 ≤ m) (hs : s.system.step e = some system) :
    ({ s with system } : Server K).Flushed := by
  intro hd ref hr
  have hf := forward_step hok hs
  have hacc := (hw.pushed ref hr).1
  have hdone := (hb.done_iff hacc).mp (h hd ref hr)
  exact ((hb.step hm hok hs).done_iff (hf.accepted.subset hacc)).mpr
    ((hf.resolutions.map Prod.fst).subset hdone)

/-- A step keeps the drain call's answer right exactly when it overlooks no request. -/
theorem flushed_step {m : ℕ} (hm : 1 ≤ m) {s s' : Server K} (hb : s.system.Books m)
    (hw : s.Watched) (h : s.Flushed) {e : ServerEvent K} (hok : s.allowed e = true)
    (hs : Stepped s e s') : s'.Flushed ↔ s.overlooks e = false := by
  cases hs with
  | submitted =>
    exact iff_of_true (h.forward hb hw (allowed_system (allowed_submit hok)) hm rfl) rfl
  | notRunning | finished | cancelled | timedOut | cleared => exact iff_of_true h rfl
  | drainCalled hd =>
    refine iff_of_true (fun hd => ?_) rfl
    dsimp only at hd
    split_ifs at hd
    cases hd
  | polled hd =>
    refine iff_of_true (fun hd => ?_) rfl
    dsimp only at hd
    split_ifs at hd
  | drained hd => exact Flushed.drained_iff hb hw hd
  | expired hd =>
    refine iff_of_true (fun hd' => ?_) (by simp [overlooks, hd])
    simp at hd'
  | scheduled hsys => exact iff_of_true (h.forward hb hw (allowed_system hok) hm hsys) rfl

/-- The answer `drained: true` is right in a run exactly when the worker holds no request of
before the call at the moment of the return. -/
theorem flushed_iff {maxBatchSize : ℕ} (hmax : 1 ≤ maxBatchSize) {rate burst now : K}
    {events : List (ServerEvent K)} {s : Server K}
    (h : (machine maxBatchSize rate burst now).Run events s)
    (hok : (machine maxBatchSize rate burst now).Meets (fun s e => s.allowed e) events) :
    (∀ js t, js <+: events → (machine maxBatchSize rate burst now).Run js t → t.Flushed) ↔
      (machine maxBatchSize rate burst now).Meets (fun s e => s.overlooks e = false) events := by
  refine Machine.Run.invariant_iff_meets (I := Flushed) (fun hd => by cases hd) ?_ h
  intro js s e s' hp hr hI hs
  have hbefore := hok.mono ((List.prefix_append _ _).trans hp)
  exact flushed_step hmax (books_of_run hmax hr hbefore) (watched_of_run hmax hr hbefore) hI
    (hok js e hp s hr) (stepped hs)

/-- A request is pushed and popped before the drain call, and served or not before its return. -/
def drainWhileServing (served : List (ServerEvent ℚ)) : List (ServerEvent ℚ) :=
  let body : GenerateRequest ℚ := { prompt := "hello", temperature := 1, topP := 1 }
  [.scheduler (.worker .start), .generate body 1 "a" 0 0 0,
    .scheduler (.push (body.request 1 "a" 0)), .scheduler (.worker .checkRunning),
    .scheduler (.worker (.popFirst false)), .drain, .poll false] ++ served ++ [.drainReturn]

/-- The worker runs the batch between the poll and the return. -/
def servesInTime : List (ServerEvent ℚ) :=
  [.scheduler (.worker (.checkFull true)), .scheduler (.worker (.runBatch (.ok [⟨"a", 1, 1⟩]))),
    .scheduler (.worker .resolve)]

theorem flushed_iff_servesInTime : ∃ s, (machine 8 0 1 0).Run (drainWhileServing servesInTime) s ∧
    s.pushedBefore = [1] ∧ s.Flushed := by
  have hexec : ((machine 8 0 1 0).exec (machine 8 0 1 0).init
      (drainWhileServing servesInTime)).map (fun s => s.pushedBefore) = some [1] := by
    decide +kernel
  obtain ⟨s, hs, hbefore⟩ := Option.map_eq_some_iff.mp hexec
  have hr := (Machine.run_iff_exec _).mpr hs
  have hok : (machine (8 : ℕ) (0 : ℚ) 1 0).Meets (fun s e => s.allowed e)
      (drainWhileServing servesInTime) := Machine.meets_of_checks _ (by decide +kernel)
  have hsees : (machine (8 : ℕ) (0 : ℚ) 1 0).Meets (fun s e => s.overlooks e = false)
      (drainWhileServing servesInTime) := by
    have hchecks : (machine (8 : ℕ) (0 : ℚ) 1 0).Meets (fun s e => !s.overlooks e)
        (drainWhileServing servesInTime) := Machine.meets_of_checks _ (by decide +kernel)
    simpa using hchecks
  exact ⟨s, hr, hbefore, (flushed_iff (by decide) hr hok).mpr hsees _ s List.prefix_rfl hr⟩

/-- What the drain call has answered. -/
def response (s : Server K) : Option DrainResponse :=
  match s.drain with
  | .returned (.ok r) => some r
  | _ => none

omit [Field K] [LinearOrder K] [FloorRing K] in
theorem response_eq_some {s : Server K} {r : DrainResponse} :
    s.response = some r ↔ s.drain = .returned (.ok r) := by
  unfold response
  split
  · rename_i hd
    simp [hd]
  · rename_i hno
    exact iff_of_false (by simp) fun hd => hno r hd

/-- The call answers `drained: true` while the request waits in the batch. -/
theorem drained_while_pending : ∃ s, (machine 8 0 1 0).Run (drainWhileServing []) s ∧
    s.drain = .returned (.ok ⟨true, 0⟩) ∧ s.pushedBefore = [1] ∧
      s.system.futures 1 = some .pending ∧ ¬s.Flushed := by
  have hexec : ((machine 8 0 1 0).exec (machine 8 0 1 0).init (drainWhileServing [])).map
      (fun s => (s.response, s.pushedBefore, s.system.refsAt .currentBatch)) =
        some (some ⟨true, 0⟩, [1], [1]) := by
    decide +kernel
  obtain ⟨s, hs, hparts⟩ := Option.map_eq_some_iff.mp hexec
  simp only [Prod.mk.injEq] at hparts
  obtain ⟨hdrained, hbefore, hcur⟩ := hparts
  have hr := (Machine.run_iff_exec _).mpr hs
  have hok : (machine (8 : ℕ) (0 : ℚ) 1 0).Meets (fun s e => s.allowed e) (drainWhileServing []) :=
    Machine.meets_of_checks _ (by decide +kernel)
  have hbooks := books_of_run (by decide) hr hok
  have hmem : 1 ∈ s.system.refsAt .currentBatch := hcur ▸ List.mem_singleton_self 1
  have hpend : s.system.futures 1 = some .pending :=
    hbooks.pending 1 (hbooks.mem_accepted hmem) fun hres => by cases hbooks.place_unique hmem hres
  refine ⟨s, hr, response_eq_some.mp hdrained, hbefore, hpend, fun hflush => ?_⟩
  obtain ⟨o, ho⟩ := hflush (response_eq_some.mp hdrained) 1 (hbefore ▸ List.mem_singleton_self 1)
  rw [hpend] at ho
  cases ho

end Server
end InferenceCluster
