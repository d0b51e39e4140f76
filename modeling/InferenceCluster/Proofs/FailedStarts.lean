import InferenceCluster.Sanity.Autoscaling

/-! What a failed scale-up leaves behind. The event is logged before the process is started,
and a worker that never answers stays in the headcount. -/

namespace InferenceCluster

namespace Autoscaler

variable {K : Type}

/-- The number of autoscaled entries in `_workers`. -/
def owned (a : Autoscaler K) : ℕ := a.workers.values.countP Option.isSome

/-- The number of events of one kind in `_scale_events`. -/
def logged (a : Autoscaler K) (action : ScaleAction) : ℕ :=
  a.scaleEvents.countP fun e => e.action = action

/-- The worker has been scaled down. -/
def Stopped (a : Autoscaler K) (nodeId : String) : Prop :=
  ∃ e ∈ a.scaleEvents, e.action = .scaleDown ∧ e.nodeId = nodeId

/-- The worker has an entry with a handle. -/
def Owns (a : Autoscaler K) (nodeId : String) : Prop :=
  ∃ proc, a.workers.get? nodeId = some (some proc)

end Autoscaler

section Histories

variable {K : Type}

/-- The registrations that have succeeded: their nodes are in the ring. -/
def registered (events : List (AutoscalingEvent K)) : List Registration :=
  events.filterMap fun
    | .addToRing reg => some reg
    | _ => none

/-- The registrations whose time was up. -/
def abandoned (events : List (AutoscalingEvent K)) : List Registration :=
  events.filterMap fun
    | .giveUp reg => some reg
    | _ => none

def AutoscalingEvent.isRaise : AutoscalingEvent K → Bool
  | .popen none => true
  | _ => false

/-- How many calls of `Popen` have raised. -/
def raises (events : List (AutoscalingEvent K)) : ℕ := events.countP AutoscalingEvent.isRaise

theorem mem_registered {events : List (AutoscalingEvent K)} {reg : Registration} :
    reg ∈ registered events ↔ .addToRing reg ∈ events := by
  rw [registered, List.mem_filterMap]
  constructor
  · rintro ⟨e, he, hreg⟩
    cases e <;> cases hreg
    exact he
  · exact fun he => ⟨_, he, rfl⟩

theorem mem_abandoned {events : List (AutoscalingEvent K)} {reg : Registration} :
    reg ∈ abandoned events ↔ .giveUp reg ∈ events := by
  rw [abandoned, List.mem_filterMap]
  constructor
  · rintro ⟨e, he, hreg⟩
    cases e <;> cases hreg
    exact he
  · exact fun he => ⟨_, he, rfl⟩

theorem raises_eq_zero {events : List (AutoscalingEvent K)} :
    raises events = 0 ↔ .popen none ∉ events := by
  rw [raises, List.countP_eq_zero]
  constructor
  · exact fun h he => h _ he rfl
  · intro h e he hr
    match e, hr with
    | .popen none, _ => exact h he

end Histories

/-- 1 while a scale-up is logged and its process not yet started. -/
def TickPoint.starting {K : Type} : TickPoint K → ℕ
  | .popen _ => 1
  | _ => 0

namespace AutoscalerSystem

variable {K : Type}

/-- The ids of the workers that were started, wherever their registration stands. -/
def startedIds (events : List (AutoscalingEvent K)) (s : AutoscalerSystem K) : List String :=
  (s.polling ++ s.adding ++ registered events ++ abandoned events).map Registration.nodeId

/-- No scale-up is in progress, and no registration has still to succeed. -/
structure Quiet (s : AutoscalerSystem K) : Prop where
  point : ∀ port, s.point ≠ .popen port
  polling : s.polling = []
  adding : s.adding = []

/-- Failed scale-ups leave no trace in the headcount or the log. -/
structure Traceless (events : List (AutoscalingEvent K)) (s : AutoscalerSystem K) : Prop where
  headcount : (s.autoscaler.owned : ℤ) = s.autoscaler.logged .scaleUp - s.autoscaler.logged .scaleDown
  succeeded : ∀ nodeId, s.autoscaler.Owns nodeId →
    ∃ reg, .addToRing reg ∈ events ∧ reg.nodeId = nodeId

/-- The books of the started workers: `ids` are theirs, and `failed` calls of `Popen` have
raised. -/
structure Ledger (ids : List String) (failed : ℕ) (s : AutoscalerSystem K) : Prop where
  distinct : ids.Nodup
  issued : ∀ id ∈ ids, ∃ port < s.autoscaler.nextPort,
    id = Autoscaler.autoId port ∧ s.point ≠ .popen port
  starting : ∀ port, s.point = .popen port → port < s.autoscaler.nextPort
  owns_iff : ∀ k, s.autoscaler.Owns k ↔ k ∈ ids ∧ ¬s.autoscaler.Stopped k
  stopped : ∀ k, s.autoscaler.Stopped k → k ∈ ids
  headcount : s.autoscaler.owned + s.autoscaler.logged .scaleDown = ids.length
  log : s.autoscaler.logged .scaleUp = ids.length + failed + s.point.starting

namespace Ledger

variable {ids ids' : List String} {failed : ℕ} {s s' : AutoscalerSystem K}

theorem perm (h : Ledger ids failed s) (hp : ids.Perm ids') : Ledger ids' failed s :=
  ⟨hp.nodup_iff.mp h.distinct, fun id hid => h.issued id (hp.mem_iff.mpr hid), h.starting,
    fun k => (h.owns_iff k).trans (and_congr_left fun _ => hp.mem_iff),
    fun k hk => hp.mem_iff.mp (h.stopped k hk), hp.length_eq ▸ h.headcount, hp.length_eq ▸ h.log⟩

theorem frame (h : Ledger ids failed s) (ha : s'.autoscaler = s.autoscaler)
    (hp : s'.point = s.point) : Ledger ids failed s' := by
  refine ⟨h.distinct, ?_, ?_, ?_, ?_, ?_, ?_⟩
  · exact ha ▸ hp ▸ h.issued
  · exact ha ▸ hp ▸ h.starting
  · exact ha ▸ h.owns_iff
  · exact ha ▸ h.stopped
  · exact ha ▸ h.headcount
  · exact ha ▸ hp ▸ h.log

/-- Away from `_workers` and the log, only a start in progress counts. -/
theorem move (h : Ledger ids failed s) (ha : s'.autoscaler = s.autoscaler)
    (hp : s.point.starting = 0) (hp' : ∀ port, s'.point ≠ .popen port) : Ledger ids failed s' := by
  have hstart : s'.point.starting = 0 := by
    cases hpt : s'.point with
    | popen port => exact absurd hpt (hp' port)
    | _ => rfl
  refine ⟨h.distinct, fun id hid => ?_, fun port he => absurd he (hp' port), ?_, ?_, ?_, ?_⟩
  · obtain ⟨port, hlt, hid, -⟩ := h.issued id hid
    exact ⟨port, ha ▸ hlt, hid, hp' port⟩
  · exact ha ▸ h.owns_iff
  · exact ha ▸ h.stopped
  · exact ha ▸ h.headcount
  · rw [ha, h.log, hp, hstart]

/-- The first section of `_scale_up` logs the event. -/
theorem reserved (h : Ledger ids failed s) (hp : s.point.starting = 0) {now ts queueDepth : K}
    {stamps : List (Stamp K)} : Ledger ids failed { s with
      autoscaler := s.autoscaler.reserve now ts queueDepth
      clock := ts
      point := .popen s.autoscaler.nextPort
      stamps } := by
  have hstopped : ∀ k, (s.autoscaler.reserve now ts queueDepth).Stopped k ↔
      s.autoscaler.Stopped k := by
    intro k
    simp [Autoscaler.Stopped, Autoscaler.reserve, or_and_right, exists_or]
  refine ⟨h.distinct, fun id hid => ?_, fun port he => ?_, fun k => ?_, fun k hk => ?_, ?_, ?_⟩
  · obtain ⟨port, hlt, hid, -⟩ := h.issued id hid
    exact ⟨port, Nat.lt_succ_of_lt hlt, hid, fun he => hlt.ne' (TickPoint.popen.inj he)⟩
  · obtain rfl := TickPoint.popen.inj he
    exact Nat.lt_succ_self _
  · rw [hstopped]
    exact h.owns_iff k
  · exact h.stopped k ((hstopped k).mp hk)
  · rw [← h.headcount]
    simp [Autoscaler.owned, Autoscaler.logged, Autoscaler.reserve, List.countP_append]
  · have hlog := h.log
    rw [hp] at hlog
    simp only [Autoscaler.logged, Autoscaler.reserve, List.countP_append] at hlog ⊢
    rw [hlog]
    rfl

theorem fresh (h : Ledger ids failed s) {port : ℕ} (hp : s.point = .popen port) :
    Autoscaler.autoId port ∉ ids := by
  intro hid
  obtain ⟨port', -, he, hne⟩ := h.issued _ hid
  rw [← autoId_injective he] at hne
  exact hne hp

/-- The process is started and the worker enters `_workers`. -/
theorem started (h : Ledger ids failed s) {port proc : ℕ} (hp : s.point = .popen port)
    {polling : List Registration} : Ledger (ids ++ [Autoscaler.autoId port]) failed { s with
      autoscaler := s.autoscaler.started port proc
      point := .idle
      polling } := by
  have hfresh := h.fresh hp
  have hnot : ¬s.autoscaler.Owns (Autoscaler.autoId port) :=
    fun ho => hfresh ((h.owns_iff _).mp ho).1
  refine ⟨?_, fun id hid => ?_, fun port he => (by cases he), fun k => ?_, fun k hk => ?_, ?_, ?_⟩
  · exact h.distinct.append (List.nodup_singleton _) (by simpa using hfresh)
  · rcases List.mem_append.mp hid with hid | hid
    · obtain ⟨port, hlt, hid, -⟩ := h.issued id hid
      exact ⟨port, hlt, hid, by simp⟩
    · exact ⟨port, h.starting port hp, List.mem_singleton.mp hid, by simp⟩
  · simp only [Autoscaler.Owns, Autoscaler.started, PyDict.get?_set, List.mem_append,
      List.mem_singleton]
    split_ifs with hk
    · subst hk
      exact iff_of_true ⟨proc, rfl⟩ ⟨.inr rfl, fun hs => hfresh (h.stopped _ hs)⟩
    · rw [or_iff_left hk]
      exact h.owns_iff k
  · exact List.mem_append_left _ (h.stopped k hk)
  · have hcount := PyDict.countP_values_set (d := s.autoscaler.workers)
      (k := Autoscaler.autoId port) (p := Option.isSome) (fun v hv => ?_) (some proc)
    · have hhead := h.headcount
      simp only [Autoscaler.owned, Autoscaler.started, List.length_append,
        List.length_singleton] at hhead ⊢
      rw [hcount, ← hhead]
      exact Nat.add_right_comm _ 1 _
    · cases v with
      | none => rfl
      | some proc' => exact absurd ⟨proc', hv⟩ hnot
  · have hlog := h.log
    rw [hp] at hlog
    rw [List.length_append, List.length_singleton]
    exact hlog.trans (by simp only [TickPoint.starting]; omega)

theorem raised (h : Ledger ids failed s) {port : ℕ} (hp : s.point = .popen port) :
    Ledger ids (failed + 1) { s with point := .idle } := by
  refine ⟨h.distinct, fun id hid => ?_, fun port he => (by cases he), h.owns_iff, h.stopped,
    h.headcount, ?_⟩
  · obtain ⟨port, hlt, hid, -⟩ := h.issued id hid
    exact ⟨port, hlt, hid, by simp⟩
  · have hlog := h.log
    rw [hp] at hlog
    exact hlog

/-- A worker is taken out of `_workers` by a scale-down. -/
theorem forgotten (h : Ledger ids failed s) (hp : s.point.starting = 0) {nodeId : String}
    {proc : ℕ} (hproc : s.autoscaler.workers.get? nodeId = some (some proc))
    {now ts queueDepth : K} {stamps : List (Stamp K)} : Ledger ids failed { s with
      autoscaler := { s.autoscaler with
        workers := s.autoscaler.workers.pop nodeId
        lastScale := now
        scaleEvents := s.autoscaler.scaleEvents ++
          [{ ts, action := .scaleDown, nodeId, queueDepth }] }
      clock := ts
      point := .removeNode nodeId (some proc)
      stamps } := by
  have hid : nodeId ∈ ids := ((h.owns_iff nodeId).mp ⟨proc, hproc⟩).1
  have hstopped : ∀ k, Autoscaler.Stopped { s.autoscaler with
      workers := s.autoscaler.workers.pop nodeId
      lastScale := now
      scaleEvents := s.autoscaler.scaleEvents ++
        [{ ts, action := .scaleDown, nodeId, queueDepth }] } k ↔
      s.autoscaler.Stopped k ∨ nodeId = k := by
    intro k
    simp [Autoscaler.Stopped, or_and_right, exists_or]
  refine ⟨h.distinct, fun id hid => ?_, fun port he => (by cases he), fun k => ?_, fun k hk => ?_,
    ?_, ?_⟩
  · obtain ⟨port, hlt, hid, -⟩ := h.issued id hid
    exact ⟨port, hlt, hid, by simp⟩
  · rw [hstopped, not_or]
    simp only [Autoscaler.Owns, PyDict.get?_pop]
    split_ifs with hk
    · exact iff_of_false (by simp) fun hno => hno.2.2 hk.symm
    · rw [and_iff_left (Ne.symm hk)]
      exact h.owns_iff k
  · rcases (hstopped k).mp hk with hk | rfl
    · exact h.stopped k hk
    · exact hid
  · have hcount := PyDict.countP_values_pop hproc Option.isSome
    have hhead := h.headcount
    simp only [Autoscaler.owned, Autoscaler.logged, List.countP_append] at hhead ⊢
    rw [hcount] at hhead
    rw [← hhead]
    exact (Nat.add_right_comm _ 1 _).symm
  · have hlog := h.log
    rw [hp] at hlog
    simp only [Autoscaler.logged, List.countP_append] at hlog ⊢
    exact hlog

end Ledger

/-! ### Whole runs -/

variable {events : List (AutoscalingEvent K)} {s s' : AutoscalerSystem K} {e : AutoscalingEvent K}

theorem raises_concat (events : List (AutoscalingEvent K)) (e : AutoscalingEvent K) :
    raises (events ++ [e]) = raises events + if e.isRaise then 1 else 0 := by
  rw [raises, raises, List.countP_append, List.countP_singleton]

/-- A step that no registration thread takes. -/
theorem startedIds_concat (hp : s'.polling = s.polling) (ha : s'.adding = s.adding)
    (hr : registered [e] = []) (hg : abandoned [e] = []) :
    startedIds (events ++ [e]) s' = startedIds events s := by
  have hr' : registered (events ++ [e]) = registered events := by
    rw [registered, List.filterMap_append]
    exact (congrArg _ hr).trans (List.append_nil _)
  have hg' : abandoned (events ++ [e]) = abandoned events := by
    rw [abandoned, List.filterMap_append]
    exact (congrArg _ hg).trans (List.append_nil _)
  rw [startedIds, startedIds, hp, ha, hr', hg']

/-- A registration goes from one list to the end of another. -/
theorem moved_perm {l : List Registration} {reg : Registration} (h : reg ∈ l)
    (r : List Registration) : (l ++ r).Perm (l.erase reg ++ (r ++ [reg])) := by
  refine ((List.perm_cons_erase h).append_right r).trans ?_
  rw [← List.append_assoc]
  exact (List.perm_append_singleton reg (l.erase reg ++ r)).symm

/-- A quiet log counts the calls of `Popen` that have raised too. -/
theorem Ledger.headcount_iff (h : Ledger (startedIds events s) (raises events) s) (hq : s.Quiet) :
    (s.autoscaler.owned : ℤ) = s.autoscaler.logged .scaleUp - s.autoscaler.logged .scaleDown ↔
      .popen none ∉ events := by
  have hstart : s.point.starting = 0 := by
    cases hp : s.point with
    | popen port => exact absurd hp (hq.point port)
    | _ => rfl
  have hhead := h.headcount
  have hlog := h.log
  rw [← raises_eq_zero]
  omega

/-- A worker that is not scaled down has either registered or been given up. -/
theorem Ledger.succeeded_iff (h : Ledger (startedIds events s) (raises events) s) (hq : s.Quiet) :
    (∀ nodeId, s.autoscaler.Owns nodeId → ∃ reg, .addToRing reg ∈ events ∧ reg.nodeId = nodeId) ↔
      ∀ reg, .giveUp reg ∈ events → s.autoscaler.Stopped reg.nodeId := by
  have hids : startedIds events s = (registered events).map Registration.nodeId ++
      (abandoned events).map Registration.nodeId := by
    simp [startedIds, hq.polling, hq.adding]
  have hdistinct := h.distinct
  rw [hids] at hdistinct
  constructor
  · intro hsucc reg hreg
    have hmem : reg.nodeId ∈ (abandoned events).map Registration.nodeId :=
      List.mem_map_of_mem (mem_abandoned.mpr hreg)
    by_contra hnot
    have howns := (h.owns_iff reg.nodeId).mpr ⟨hids ▸ List.mem_append_right _ hmem, hnot⟩
    obtain ⟨reg', hreg', hid⟩ := hsucc _ howns
    have hmem' : reg.nodeId ∈ (registered events).map Registration.nodeId :=
      hid ▸ List.mem_map_of_mem (mem_registered.mpr hreg')
    exact List.disjoint_of_nodup_append hdistinct hmem' hmem
  · intro hstopped nodeId howns
    obtain ⟨hmem, hnot⟩ := (h.owns_iff nodeId).mp howns
    rw [hids] at hmem
    rcases List.mem_append.mp hmem with hmem | hmem
    · obtain ⟨reg, hreg, hid⟩ := List.mem_map.mp hmem
      exact ⟨reg, mem_registered.mp hreg, hid⟩
    · obtain ⟨reg, hreg, rfl⟩ := List.mem_map.mp hmem
      exact absurd (hstopped reg (mem_abandoned.mp hreg)) hnot

variable [AddCommGroup K] [LinearOrder K] {digest : String → ℕ} {cfg : AutoscalerConfig K}
variable {existing : List Node}

theorem Ledger.step (h : Ledger (startedIds events s) (raises events) s)
    (hs : Stepped digest cfg s e s') :
    Ledger (startedIds (events ++ [e]) s') (raises (events ++ [e])) s' := by
  rw [raises_concat]
  cases hs with
  | @tick now output hp hnow =>
    rw [startedIds_concat rfl rfl rfl rfl]
    refine h.move rfl (by rw [hp]; rfl) fun port => ?_
    rcases s.tick_point cfg now output with hpt | ⟨hpt, -⟩ | ⟨hpt, -⟩ <;> simp [hpt]
  | reserved hp hnow hts =>
    rw [startedIds_concat rfl rfl rfl rfl]
    exact h.reserved (by rw [hp]; rfl)
  | @started port proc hp =>
    refine (h.started hp).perm (List.perm_iff_count.mpr fun a => ?_)
    simp only [startedIds, registered, abandoned, Autoscaler.registration, List.filterMap_append,
      List.map_append, List.count_append, List.filterMap_cons_none, List.filterMap_nil,
      List.map_cons, List.map_nil, List.count_nil]
    omega
  | raised hp =>
    rw [startedIds_concat rfl rfl rfl rfl]
    exact h.raised hp
  | notOwned hp =>
    rw [startedIds_concat rfl rfl rfl rfl]
    exact h.move rfl (by rw [hp]; rfl) (by simp)
  | forgotten hp hnow hts hproc =>
    rw [startedIds_concat rfl rfl rfl rfl]
    exact h.forgotten (by rw [hp]; rfl) hproc
  | removed hp =>
    rw [startedIds_concat rfl rfl rfl rfl]
    exact h.move rfl (by rw [hp]; rfl) (by simp)
  | terminated hp =>
    rw [startedIds_concat rfl rfl rfl rfl]
    exact h.move rfl (by rw [hp]; rfl) (by simp)
  | setCooldown | registered =>
    rw [startedIds_concat rfl rfl rfl rfl]
    exact h.frame rfl rfl
  | @answered reg hreg =>
    have hmoved := ((moved_perm hreg s.adding).append_right (registered events)).append_right
      (abandoned events)
    refine (h.perm ?_).frame rfl rfl
    simpa [startedIds, registered, abandoned, List.filterMap_append] using
      hmoved.map Registration.nodeId
  | @gaveUp reg hreg =>
    have hmoved := moved_perm hreg (s.adding ++ registered events ++ abandoned events)
    refine (h.perm ?_).frame rfl rfl
    simpa [startedIds, registered, abandoned, List.filterMap_append] using
      hmoved.map Registration.nodeId
  | @added reg hreg =>
    have hmoved := ((moved_perm hreg (registered events)).append_right
      (abandoned events)).append_left s.polling
    refine (h.perm ?_).frame rfl rfl
    simpa [startedIds, registered, abandoned, List.filterMap_append] using
      hmoved.map Registration.nodeId

omit [LinearOrder K] in
theorem ledger_init (cooldown clock : K) :
    Ledger (startedIds [] (init digest existing cooldown clock)) (raises (K := K) [])
      (init digest existing cooldown clock) := by
  obtain ⟨hevents, hpoint, hpolling, hadding, -⟩ := init_rest digest existing cooldown clock
  have hids : startedIds [] (init digest existing cooldown clock) = [] := by
    rw [startedIds, hpolling, hadding]
    rfl
  have hnone : ∀ k, ¬(init digest existing cooldown clock).autoscaler.Owns k := by
    rintro k ⟨proc, hk⟩
    rw [workers_init] at hk
    split_ifs at hk
    cases hk
  have hstopped : ∀ k, ¬(init digest existing cooldown clock).autoscaler.Stopped k := by
    rintro k ⟨e, he, -⟩
    rw [hevents] at he
    cases he
  have howned : (init digest existing cooldown clock).autoscaler.owned = 0 := by
    refine List.countP_eq_zero.mpr fun v hv => ?_
    obtain ⟨k, hk⟩ := (PyDict.mem_values_iff _ _).mp hv
    cases v with
    | none => simp
    | some proc => exact absurd ⟨proc, hk⟩ (hnone k)
  have hlogged : ∀ action, (init digest existing cooldown clock).autoscaler.logged action = 0 := by
    intro action
    rw [Autoscaler.logged, hevents, List.countP_nil]
  rw [hids]
  refine ⟨List.nodup_nil, by simp, fun port hp => ?_, fun k => ?_, fun k hk => ?_, ?_, ?_⟩
  · rw [hpoint] at hp
    cases hp
  · exact iff_of_false (hnone k) fun hk => by cases hk.1
  · exact absurd hk (hstopped k)
  · rw [howned, hlogged]
    rfl
  · rw [hlogged, hpoint]
    rfl

theorem ledger_of_run {cooldown clock : K}
    (h : (machine digest cfg existing cooldown clock).Run events s) :
    Ledger (startedIds events s) (raises events) s := by
  induction h with
  | nil => exact ledger_init cooldown clock
  | snoc hr hs ih => exact ih.step (stepped hs)

/-- In a quiet state of a run, the failed scale-ups have left no trace exactly when no call of
`Popen` has raised and every worker that was given up has been scaled down since. -/
theorem traceless_iff {cooldown clock : K}
    (h : (machine digest cfg existing cooldown clock).Run events s) (hq : s.Quiet) :
    Traceless events s ↔ .popen none ∉ events ∧
      ∀ reg, .giveUp reg ∈ events → s.autoscaler.Stopped reg.nodeId := by
  have hl := ledger_of_run h
  rw [← hl.headcount_iff hq, ← hl.succeeded_iff hq]
  exact ⟨fun ht => ⟨ht.headcount, ht.succeeded⟩, fun ht => ⟨ht.1, ht.2⟩⟩

/-- A worker never answers, and is scaled down. -/
def givenUp : List (AutoscalingEvent ℤ) :=
  [.tick 100 9, .reserve 100 100 20, .popen (some 1), .giveUp (Autoscaler.registration 8003),
    .tick 135 (-9), .scaleDown 135 135 0, .removeNode, .terminate]

theorem traceless_iff_givenUp :
    let cfg : AutoscalerConfig ℤ := { scaleUpThreshold := 6, scaleDownThreshold := -6 }
    ∃ s, (machine (fun _ => 0) cfg workerNodes 30 100).Run givenUp s ∧ s.Quiet ∧
      Traceless givenUp s := by
  intro cfg
  have hexec : ((machine (fun _ => 0) cfg workerNodes 30 100).exec
      (machine (fun _ => 0) cfg workerNodes 30 100).init givenUp).map
      (fun s => (s.point, s.polling ++ s.adding,
        s.autoscaler.scaleEvents.map fun e => (e.action, e.nodeId))) =
      some (.idle, [], [(.scaleUp, "worker-auto-8003"), (.scaleDown, "worker-auto-8003")]) := by
    decide +kernel
  obtain ⟨s, hs, hparts⟩ := Option.map_eq_some_iff.mp hexec
  simp only [Prod.mk.injEq, List.append_eq_nil_iff] at hparts
  obtain ⟨hpoint, ⟨hpolling, hadding⟩, hevents⟩ := hparts
  have hr := (Machine.run_iff_exec _).mpr hs
  have hquiet : s.Quiet := ⟨by simp [hpoint], hpolling, hadding⟩
  have hstopped : s.autoscaler.Stopped "worker-auto-8003" := by
    have hmem : (ScaleAction.scaleDown, "worker-auto-8003") ∈
        s.autoscaler.scaleEvents.map fun e => (e.action, e.nodeId) := by
      rw [hevents]
      decide
    obtain ⟨e, he, hpair⟩ := List.mem_map.mp hmem
    obtain ⟨ha, hid⟩ := Prod.mk.inj hpair
    exact ⟨e, he, ha, hid⟩
  refine ⟨s, hr, hquiet, (traceless_iff hr hquiet).mpr ⟨by simp [givenUp], fun reg hreg => ?_⟩⟩
  obtain rfl : reg = Autoscaler.registration 8003 := by simpa [givenUp] using hreg
  exact hstopped

/-- One start raises, and the worker of the next never answers. -/
def failedTwice : List (AutoscalingEvent ℤ) :=
  [.tick 100 9, .reserve 100 100 20, .popen none, .tick 135 9, .reserve 135 135 20,
    .popen (some 1), .giveUp (Autoscaler.registration 8004)]

/-- Two events are logged for one entry, and the entry is that of a worker that never
registered. -/
theorem failed_starts_counted :
    let cfg : AutoscalerConfig ℤ := { scaleUpThreshold := 6, scaleDownThreshold := -6 }
    ∃ s, (machine (fun _ => 0) cfg workerNodes 30 100).Run failedTwice s ∧ s.Quiet ∧
      s.registering = [] ∧ s.autoscaler.owned = 1 ∧ s.autoscaler.logged .scaleUp = 2 ∧
      s.autoscaler.logged .scaleDown = 0 ∧ s.autoscaler.Owns "worker-auto-8004" ∧
      (∀ reg, .addToRing reg ∉ failedTwice) ∧ ¬Traceless failedTwice s := by
  intro cfg
  have hexec : ((machine (fun _ => 0) cfg workerNodes 30 100).exec
      (machine (fun _ => 0) cfg workerNodes 30 100).init failedTwice).map
      (fun s => (s.point, s.polling ++ s.adding ++ s.registering,
        s.autoscaler.workers.get? "worker-auto-8004")) = some (.idle, [], some (some 1)) := by
    decide +kernel
  have hcounts : ((machine (fun _ => 0) cfg workerNodes 30 100).exec
      (machine (fun _ => 0) cfg workerNodes 30 100).init failedTwice).map
      (fun s => (s.autoscaler.owned, s.autoscaler.logged .scaleUp,
        s.autoscaler.logged .scaleDown)) = some (1, 2, 0) := by
    decide +kernel
  obtain ⟨s, hs, hparts⟩ := Option.map_eq_some_iff.mp hexec
  rw [hs, Option.map_some, Option.some.injEq] at hcounts
  simp only [Prod.mk.injEq, List.append_eq_nil_iff] at hparts hcounts
  obtain ⟨hpoint, ⟨⟨hpolling, hadding⟩, hregistering⟩, hentry⟩ := hparts
  obtain ⟨howned, hup, hdown⟩ := hcounts
  have hnone : ∀ reg, .addToRing reg ∉ failedTwice := by simp [failedTwice]
  refine ⟨s, (Machine.run_iff_exec _).mpr hs, ⟨by simp [hpoint], hpolling, hadding⟩, hregistering,
    howned, hup, hdown, ⟨1, hentry⟩, hnone, fun ht => ?_⟩
  have hhead := ht.headcount
  rw [howned, hup, hdown] at hhead
  cases hhead

end AutoscalerSystem
end InferenceCluster
