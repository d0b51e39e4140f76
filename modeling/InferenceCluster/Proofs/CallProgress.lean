import InferenceCluster.Proofs.EndToEnd

/-! A call of the router waits for no other call and for no worker: until it is answered one of
its own steps can be taken, and there are few of them. -/

namespace InferenceCluster

variable {K : Type}

/-- How many steps a call still has at most. -/
def RoutePoint.left : RoutePoint K → ℕ
  | .choosing rest => rest.length + 2
  | .chosen _ => 2
  | .waiting _ _ => 1

namespace Deployment

/-- A step of the call itself. -/
def ownStep (callId : ℕ) : DeploymentEvent K → Bool
  | .check c | .post c _ | .receive c _ | .unreachable c | .timedOut c => c = callId
  | .router _ | .worker _ _ | .generate _ _ _ | .deliver _ _ _ _ _ _ => false

def left (s : Deployment K) (callId : ℕ) : ℕ :=
  ((s.calls.find? (·.callId = callId)).map fun c => c.point.left).getD 0

variable {s s' : Deployment K} {call : RouterCall K}

theorem Ids.find_eq (h : s.Ids) (hcall : call ∈ s.calls) :
    s.calls.find? (·.callId = call.callId) = some call := by
  cases hfind : s.calls.find? (·.callId = call.callId) with
  | none => simpa using List.find?_eq_none.mp hfind call hcall
  | some c =>
    obtain ⟨hc, hid⟩ := find_call hfind
    rw [h.call_unique hcall hc hid]

theorem left_of_mem (h : s.Ids) (hcall : call ∈ s.calls) :
    s.left call.callId = call.point.left := by
  rw [left, h.find_eq hcall]
  rfl

theorem left_eq_zero {callId : ℕ} (h : callId ∉ s.calls.map RouterCall.callId) :
    s.left callId = 0 := by
  unfold left
  rw [List.find?_eq_none.mpr fun c hc => by
    simpa using fun heq => h (List.mem_map.mpr ⟨c, hc, heq⟩)]
  rfl

/-- A step that leaves the call where it is. -/
theorem left_frame {callId : ℕ} (h : s.Ids) (h' : s'.Ids)
    (hsame : ∀ c, c.callId = callId → (c ∈ s'.calls ↔ c ∈ s.calls)) :
    s'.left callId = s.left callId := by
  by_cases hmem : callId ∈ s.calls.map RouterCall.callId
  · obtain ⟨c, hc, rfl⟩ := List.mem_map.mp hmem
    rw [left_of_mem h hc, left_of_mem h' ((hsame c rfl).mpr hc)]
  · rw [left_eq_zero hmem, left_eq_zero fun hm => ?_]
    obtain ⟨c, hc, rfl⟩ := List.mem_map.mp hm
    exact hmem (List.mem_map_of_mem ((hsame c rfl).mp hc))

theorem mem_answer {c : RouterCall K} (hne : c.callId ≠ call.callId) (a : RouterAnswer K) :
    c ∈ (s.answer call a).calls ↔ c ∈ s.calls := by
  rw [answer, List.mem_filter, decide_eq_true_iff]
  exact and_iff_left hne

theorem Ids.mem_move_iff (h : s.Ids) (hcall : call ∈ s.calls) {c : RouterCall K}
    (hne : c.callId ≠ call.callId) (point : RoutePoint K) :
    c ∈ (s.move call point).calls ↔ c ∈ s.calls := by
  refine ⟨fun hc => ?_, fun hc => List.mem_map.mpr ⟨c, hc, if_neg hne⟩⟩
  rcases h.mem_move hcall hc with rfl | ⟨hc, -⟩
  · exact absurd rfl hne
  · exact hc

/-- The call's own steps. -/
theorem left_answer (s : Deployment K) (call : RouterCall K) (a : RouterAnswer K) :
    (s.answer call a).left call.callId = 0 := by
  refine left_eq_zero fun hm => ?_
  obtain ⟨c, hc, hid⟩ := List.mem_map.mp hm
  exact of_decide_eq_true (List.mem_filter.mp hc).2 hid

theorem left_pos (point : RoutePoint K) : 0 < point.left := by
  cases point <;> simp [RoutePoint.left]

theorem left_answered (h : s.Ids) (hcall : call ∈ s.calls) (a : RouterAnswer K)
    (h' : (s.answer call a).Ids) (callId : ℕ) :
    (s.answer call a).left callId + (decide (call.callId = callId)).toNat ≤ s.left callId := by
  by_cases hid : call.callId = callId
  · subst hid
    have hpos := left_pos call.point
    rw [left_answer, left_of_mem h hcall, Nat.zero_add, decide_eq_true rfl]
    exact hpos
  · have hsame := left_frame h h' fun c hc => mem_answer (by rwa [hc, ne_comm]) a
    simp [hsame, hid]

theorem left_moved (h : s.Ids) (hcall : call ∈ s.calls) {point : RoutePoint K} (h' : s'.Ids)
    (hcalls : s'.calls = (s.move call point).calls) (hlt : point.left < call.point.left)
    (callId : ℕ) : s'.left callId + (decide (call.callId = callId)).toNat ≤ s.left callId := by
  by_cases hid : call.callId = callId
  · subst hid
    have hmem : { call with point } ∈ s'.calls :=
      hcalls ▸ List.mem_map.mpr ⟨call, hcall, if_pos rfl⟩
    have hleft : s'.left call.callId = point.left := left_of_mem h' hmem
    rw [hleft, left_of_mem h hcall, decide_eq_true rfl]
    exact hlt
  · have hsame : s'.left callId = s.left callId := by
      refine left_frame h h' fun c hc => ?_
      rw [hcalls]
      exact h.mem_move_iff hcall (by rwa [hc, ne_comm]) point
    simp [hsame, hid]

variable [Field K] [LinearOrder K] [FloorRing K]
variable {digest : String → ℕ} {errorText : ℕ → String → String} {e : DeploymentEvent K}

/-- No step of the others gives the call more to do. -/
theorem left_step (h : s.Ids) (hfresh : s.fresh e = true) (hs : Stepped digest errorText s e s')
    {callId : ℕ} (hknown : callId ∈ s.calls.map RouterCall.callId ++
      s.answers.map RouterAnswered.callId) :
    s'.left callId + (ownStep callId e).toNat ≤ s.left callId := by
  have h' := h.step hfresh hs
  cases hs with
  | routed | worked | keyError | delivered | unprocessable =>
    exact (left_frame h h' fun _ _ => Iff.rfl).le
  | @called callId' =>
    obtain ⟨hcalls, hanswers⟩ := of_decide_eq_true hfresh
    refine (left_frame h h' fun c hc => ?_).le
    refine List.mem_cons.trans (or_iff_right ?_)
    rintro rfl
    exact (List.mem_append.mp hknown).elim (hc ▸ hcalls) (hc ▸ hanswers)
  | noneLeft hcall | received hcall | rejected hcall | unreachable hcall | timedOut hcall =>
    exact left_answered h hcall _ h' callId
  | chosen hcall hp | passed hcall hp | posted hcall hp =>
    refine left_moved h hcall h' rfl ?_ callId
    rw [hp]
    simp [RoutePoint.left]

/-- An answer stays. -/
theorem known_step (hs : Stepped digest errorText s e s') {callId : ℕ}
    (hknown : callId ∈ s.calls.map RouterCall.callId ++ s.answers.map RouterAnswered.callId) :
    callId ∈ s'.calls.map RouterCall.callId ++ s'.answers.map RouterAnswered.callId := by
  have hanswered : ∀ {call : RouterCall K} (a : RouterAnswer K), callId ∈
      (s.answer call a).calls.map RouterCall.callId ++
        (s.answer call a).answers.map RouterAnswered.callId := by
    intro call a
    by_cases hid : callId = call.callId
    · exact List.mem_append_right _ (by simp [Deployment.answer, hid])
    · rcases List.mem_append.mp hknown with hm | hm
      · obtain ⟨c, hc, rfl⟩ := List.mem_map.mp hm
        exact List.mem_append_left _ (List.mem_map_of_mem ((mem_answer hid a).mpr hc))
      · exact List.mem_append_right _ (by simp [Deployment.answer, List.mem_map.mp hm])
  cases hs with
  | routed | worked | delivered | unprocessable => exact hknown
  | called => exact List.mem_append.mpr ((List.mem_append.mp hknown).imp_left
      (List.mem_cons_of_mem _))
  | keyError =>
    rw [List.map_append, ← List.append_assoc]
    exact List.mem_append_left _ hknown
  | noneLeft | received | rejected | unreachable | timedOut => exact hanswered _
  | chosen | passed | posted =>
    rw [map_callId_move]
    exact hknown

/-- A lookup finds no more candidates than there are baseline workers. -/
def Short (s : Deployment K) : Prop :=
  ∀ c ∈ s.calls, ∀ rest, c.point = .choosing rest → rest.length ≤ workerNodes.length

theorem short_step (h : s.Ids) (hshort : s.Short) (hwf : s.router.ring.WellFormed digest)
    (hs : Stepped digest errorText s e s') : s'.Short := by
  cases hs with
  | routed | worked | keyError | delivered | unprocessable => exact hshort
  | noneLeft | received | rejected | unreachable | timedOut =>
    exact fun c hc => hshort c (List.mem_of_mem_filter hc)
  | @called _ sessionId _ candidates hc =>
    intro c hmem rest hp
    rcases List.mem_cons.mp hmem with rfl | hmem
    · rw [hwf.canonical.getNodesForKey_eq_take sessionId (by decide)] at hc
      rw [← RoutePoint.choosing.inj hp, ← Except.ok.inj hc]
      exact List.length_take_le _ _
    · exact hshort c hmem rest hp
  | chosen hcall | posted hcall =>
    intro c hc rest hp
    rcases h.mem_move hcall hc with rfl | ⟨hc, -⟩
    · cases hp
    · exact hshort c hc rest hp
  | passed hcall hpoint =>
    intro c hc rest hp
    rcases h.mem_move hcall hc with rfl | ⟨hc, -⟩
    · have hle := hshort _ hcall _ hpoint
      rw [← RoutePoint.choosing.inj hp]
      exact (Nat.le_succ _).trans hle
    · exact hshort c hc rest hp

variable {maxBatchSize : ℕ} {rate burst : K} {now : String → K}

theorem short_of_run {events : List (DeploymentEvent K)}
    (h : (machine digest errorText maxBatchSize rate burst now).Run events s)
    (hok : (machine digest errorText maxBatchSize rate burst now).Meets
      (fun s e => s.allowed e) events) : s.Short := by
  induction h with
  | nil => exact fun c hc => absurd hc List.not_mem_nil
  | @snoc is s e s' hr hs ih =>
    have hbefore := hok.mono (List.prefix_append _ _)
    exact short_step (traced_of_run hr hbefore).1 (ih hbefore)
      (RouterSystem.reachable_wellFormed (router_reachable hr)) (stepped hs)

omit [Field K] [LinearOrder K] [FloorRing K] in
theorem left_le {callId : ℕ} (h : s.Ids) (hshort : s.Short) :
    s.left callId ≤ workerNodes.length + 2 := by
  by_cases hmem : callId ∈ s.calls.map RouterCall.callId
  · obtain ⟨c, hc, rfl⟩ := List.mem_map.mp hmem
    rw [left_of_mem h hc]
    cases hp : c.point with
    | choosing rest => exact Nat.add_le_add_right (hshort c hc rest hp) 2
    | chosen | waiting => simp [RoutePoint.left]
  · rw [left_eq_zero hmem]
    exact Nat.zero_le _

/-- The step that a call can take without a worker. -/
theorem own_step_enabled (h : s.Ids) (hcall : call ∈ s.calls) :
    (s.step digest errorText (.check call.callId)).isSome = true ∨
    (∀ t0, (s.step digest errorText (.post call.callId t0)).isSome = true) ∨
    (s.step digest errorText (.timedOut call.callId)).isSome = true := by
  have hfind := h.find_eq hcall
  cases hp : call.point with
  | choosing candidates =>
    refine .inl ?_
    cases candidates <;> simp [Deployment.step, Deployment.check, hfind, hp]
  | chosen node => exact .inr (.inl fun t0 => by simp [Deployment.step, Deployment.post, hfind, hp])
  | waiting node t0 => exact .inr (.inr (by simp [Deployment.step, Deployment.fail, hfind, hp]))

/-- Only a call that stands somewhere has steps. -/
theorem mem_of_ownStep {callId : ℕ} (hs : Stepped digest errorText s e s')
    (hown : ownStep callId e = true) : callId ∈ s.calls.map RouterCall.callId := by
  cases hs with
  | routed | worked | called | keyError | delivered | unprocessable => cases hown
  | noneLeft hcall | chosen hcall | passed hcall | posted hcall | received hcall | rejected hcall
  | unreachable hcall | timedOut hcall =>
    obtain rfl := of_decide_eq_true hown
    exact List.mem_map_of_mem hcall

/-- Whatever the other calls, the workers and the threads do, a call takes at most four steps of
its own. Until then it can take one without a worker, after that it is answered, once. -/
theorem call_progress {before after : List (DeploymentEvent K)} {t : Deployment K}
    (hs : (machine digest errorText maxBatchSize rate burst now).Run before s)
    (ht : (machine digest errorText maxBatchSize rate burst now).Run (before ++ after) t)
    (hok : (machine digest errorText maxBatchSize rate burst now).Meets
      (fun s e => s.allowed e) (before ++ after))
    {callId : ℕ} (hcall : callId ∈ s.calls.map RouterCall.callId) :
    (machine digest errorText maxBatchSize rate burst now).tally (fun _ => ownStep callId) s after ≤
      workerNodes.length + 2 ∧
    (callId ∈ t.calls.map RouterCall.callId ∧
      (machine digest errorText maxBatchSize rate burst now).tally (fun _ => ownStep callId)
        s after < workerNodes.length + 2 ∧
      ((t.step digest errorText (.check callId)).isSome = true ∨
        (∀ t0, (t.step digest errorText (.post callId t0)).isSome = true) ∨
        (t.step digest errorText (.timedOut callId)).isSome = true) ∨
    (t.answers.map RouterAnswered.callId).count callId = 1 ∧
      ∀ e, ownStep callId e = true → t.step digest errorText e = none) := by
  have hids : ∀ ks u, ks <+: before ++ after →
      (machine digest errorText maxBatchSize rate burst now).Run ks u → u.Ids :=
    fun ks u hp hr => (traced_of_run hr (hok.mono hp)).1
  have hids_s := hids before s (List.prefix_append _ _) hs
  have hids_t := hids _ t List.prefix_rfl ht
  obtain ⟨hknown, hle⟩ := Machine.Run.measure (w := fun _ => ownStep callId)
    (J := fun u => callId ∈ u.calls.map RouterCall.callId ++ u.answers.map RouterAnswered.callId)
    (μ := fun u => u.left callId) hids hok
    (fun u e u' hI hJ ha _ hu => ⟨known_step (stepped hu) hJ,
      left_step hI (Bool.and_eq_true_iff.mp ha).1 (stepped hu) hJ⟩)
    hs ht (List.mem_append_left _ hcall)
  have hfour : s.left callId ≤ workerNodes.length + 2 :=
    left_le hids_s (short_of_run hs (hok.mono (List.prefix_append _ _)))
  refine ⟨(Nat.le_add_right _ _).trans (hle.trans hfour), ?_⟩
  by_cases hmem : callId ∈ t.calls.map RouterCall.callId
  · obtain ⟨c, hc, rfl⟩ := List.mem_map.mp hmem
    have hpos := left_of_mem hids_t hc ▸ left_pos c.point
    exact .inl ⟨hmem, by omega, own_step_enabled hids_t hc⟩
  · obtain hanswered := (List.mem_append.mp hknown).resolve_left hmem
    refine .inr ⟨?_, fun e hown => ?_⟩
    · exact List.count_eq_one_of_mem (List.nodup_append.mp hids_t.once).2.1 hanswered
    · cases hstep : t.step digest errorText e with
      | none => rfl
      | some u => exact absurd (mem_of_ownStep (stepped hstep) hown) hmem

/-- The call that is not waited for takes all of them. -/
theorem call_progress_failedOver : ∃ t, cluster.Run lookups twoCalls ∧
    cluster.Run (lookups ++ failedOver) t ∧
    cluster.tally (fun _ => ownStep 8) twoCalls failedOver = workerNodes.length + 2 ∧
    (t.answers.map RouterAnswered.callId).count 8 = 1 ∧
    ∀ e, ownStep 8 e = true → t.step (fun _ => 0) (fun _ _ => "") e = none := by
  have hexec : (cluster.exec twoCalls failedOver).map
      (fun t => t.calls.map RouterCall.callId) = some [] := by
    decide +kernel
  have htally : cluster.tally (fun _ => ownStep 8) twoCalls failedOver =
      workerNodes.length + 2 := by
    decide +kernel
  obtain ⟨t, ht, hcalls⟩ := Option.map_eq_some_iff.mp hexec
  have hlookups := exec_lookups []
  rw [List.append_nil] at hlookups
  have hrs := (Machine.run_iff_exec _).mpr hlookups
  have hrt := (Machine.run_iff_exec _).mpr ((exec_lookups failedOver).trans ht)
  refine ⟨t, hrs, hrt, htally, ?_⟩
  have hcall : 8 ∈ twoCalls.calls.map RouterCall.callId := by decide
  rcases (call_progress hrs hrt allowed_failedOver hcall).2 with h | h
  · exact absurd h.1 (hcalls ▸ List.not_mem_nil)
  · exact h

end Deployment
end InferenceCluster
