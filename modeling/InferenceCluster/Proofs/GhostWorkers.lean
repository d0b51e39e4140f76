import InferenceCluster.Sanity.Autoscaling
import InferenceCluster.Proofs.RingFollowsHealth

/-! A registration thread adds its node to the ring without looking whether the worker is
still there. A node added after its worker was scaled down stays: ids are never used twice,
and only the scale-down that has already happened would take it out. -/

namespace InferenceCluster
namespace AutoscalerSystem

variable {K : Type} [AddCommGroup K] [LinearOrder K]
variable {digest : String → ℕ} {cfg : AutoscalerConfig K} {existing : List Node}
variable {s s' : AutoscalerSystem K} {e : AutoscalingEvent K}

/-- The node added is still a worker, or a scale-down has still to take it out. -/
def RegistersWorker (s : AutoscalerSystem K) : AutoscalingEvent K → Prop
  | .addToRing reg => s.autoscaler.workers.contains reg.nodeId = true ∨
      ∃ proc, s.point = .removeNode reg.nodeId proc
  | _ => True

/-! ### Nodes in the ring are workers -/

def Accounted (s : AutoscalerSystem K) : Prop :=
  ∀ k, s.ring.nodes.contains k = true →
    s.autoscaler.workers.contains k = true ∨ ∃ proc, s.point = .removeNode k proc

omit [LinearOrder K] in
theorem accounted_init (cooldown clock : K) : (init digest existing cooldown clock).Accounted := by
  suffices h : ∀ s : AutoscalerSystem K,
      (∀ k, s.ring.nodes.contains k = true → s.autoscaler.workers.contains k = true) →
      ∀ k, (existing.foldl (registerWorker digest) s).ring.nodes.contains k = true →
        (existing.foldl (registerWorker digest) s).autoscaler.workers.contains k = true by
    exact fun k hk => .inl (h _ (fun k hk => by cases hk) k hk)
  induction existing with
  | nil => exact fun s hs => hs
  | cons node existing ih =>
    refine fun s hs => ih _ fun k hk => ?_
    simp only [registerWorker, Autoscaler.registerExisting, ConsistentHashRing.contains_addNode,
      Bool.or_eq_true, beq_iff_eq] at hk ⊢
    rw [PyDict.contains, PyDict.get?_set]
    split_ifs with he
    · rfl
    · exact hs k (hk.resolve_right he)

theorem Accounted.step (h : s.Accounted) (hok : s.RegistersWorker e)
    (hs : Stepped digest cfg s e s') : s'.Accounted := by
  intro k hk
  -- outside a removal, a node in the ring is a worker
  have hidle : (∀ k proc, s.point ≠ .removeNode k proc) →
      s.ring.nodes.contains k = true → s.autoscaler.workers.contains k = true :=
    fun hp hk => (h k hk).resolve_right fun ⟨proc, hr⟩ => hp k proc hr
  cases hs with
  | tick hp => exact .inl (hidle (by simp [hp]) hk)
  | reserved hp => exact .inl (hidle (by simp [hp]) hk)
  | @started port proc hp =>
    left
    have hmem := hidle (by simp [hp]) hk
    simp only [Autoscaler.started, PyDict.contains, PyDict.get?_set]
    split_ifs
    · rfl
    · exact hmem
  | raised hp => exact .inl (hidle (by simp [hp]) hk)
  | notOwned hp => exact .inl (hidle (by simp [hp]) hk)
  | @forgotten _ _ _ _ nodeId proc hp =>
    have hmem := hidle (by simp [hp]) hk
    by_cases he : k = nodeId
    · exact .inr ⟨some proc, by rw [he]⟩
    · left
      simp only [PyDict.contains, PyDict.get?_pop]
      rw [if_neg he]
      exact hmem
  | @removed nodeId proc hp =>
    simp only [ConsistentHashRing.contains_removeNode, Bool.and_eq_true, bne_iff_ne] at hk
    rcases h k hk.1 with hw | ⟨proc', hr⟩
    · exact .inl hw
    · rw [hp] at hr
      exact absurd (TickPoint.removeNode.inj hr).1.symm hk.2
  | terminated hp => exact .inl (hidle (by simp [hp]) hk)
  | setCooldown | answered | gaveUp | registered => exact h k hk
  | @added reg hreg =>
    simp only [ConsistentHashRing.contains_addNode, Bool.or_eq_true,
      beq_iff_eq] at hk
    rcases hk with hk | rfl
    · exact h k hk
    · exact hok

/-! ### A node that is left behind -/

/-- A node in the ring that is no worker, that no scale-down will take out and whose id no
scale-up will use again. -/
structure Ghost (s : AutoscalerSystem K) (port : ℕ) : Prop where
  member : s.ring.nodes.contains (Autoscaler.autoId port) = true
  noWorker : s.autoscaler.workers.contains (Autoscaler.autoId port) = false
  staying : ∀ proc, s.point ≠ .removeNode (Autoscaler.autoId port) proc
  used : port < s.autoscaler.nextPort
  notStarting : s.point ≠ .popen port

theorem Ghost.step {port : ℕ} (h : s.Ghost port) (hs : Stepped digest cfg s e s') :
    s'.Ghost port := by
  obtain ⟨hm, hw, hr, hu, hp⟩ := h
  cases hs with
  | @tick now output =>
    rcases s.tick_point cfg now output with hpt | ⟨hpt, -⟩ | ⟨hpt, -⟩ <;>
      exact ⟨hm, hw, by simp [hpt], hu, by simp [hpt]⟩
  | reserved =>
    refine ⟨hm, hw, by simp, Nat.lt_succ_of_lt hu, fun he => ?_⟩
    exact hu.ne' (TickPoint.popen.inj he)
  | @started port' proc hp' =>
    refine ⟨hm, ?_, by simp, hu, by simp⟩
    have hne : Autoscaler.autoId port ≠ Autoscaler.autoId port' := by
      intro he
      rw [autoId_injective he] at hp
      exact hp hp'
    simp only [Autoscaler.started, PyDict.contains, PyDict.get?_set]
    rw [if_neg hne]
    exact hw
  | raised | notOwned | terminated => exact ⟨hm, hw, by simp, hu, by simp⟩
  | @forgotten _ _ _ _ nodeId proc hp' _ _ hproc =>
    have hne : Autoscaler.autoId port ≠ nodeId := by
      rintro rfl
      simp [PyDict.contains, hproc] at hw
    refine ⟨hm, ?_, fun proc' he => hne (TickPoint.removeNode.inj he).1.symm, hu, by simp⟩
    simp only [PyDict.contains, PyDict.get?_pop]
    rw [if_neg hne]
    exact hw
  | @removed nodeId proc hp' =>
    have hne : Autoscaler.autoId port ≠ nodeId := by
      rintro rfl
      exact hr proc hp'
    refine ⟨?_, hw, by simp, hu, by simp⟩
    rw [ConsistentHashRing.contains_removeNode, hm]
    simpa using hne
  | setCooldown | answered | gaveUp | registered => exact ⟨hm, hw, hr, hu, hp⟩
  | added =>
    refine ⟨?_, hw, hr, hu, hp⟩
    simp [ConsistentHashRing.contains_addNode, hm]

/-! ### Registrations in flight -/

structure Issued (s : AutoscalerSystem K) : Prop where
  regs : ∀ reg, reg ∈ s.polling ∨ reg ∈ s.adding →
    ∃ port < s.autoscaler.nextPort, reg.nodeId = Autoscaler.autoId port ∧ s.point ≠ .popen port
  starting : ∀ port, s.point = .popen port → port < s.autoscaler.nextPort

omit [LinearOrder K] in
theorem issued_init (cooldown clock : K) : (init digest existing cooldown clock).Issued := by
  obtain ⟨-, hpoint, hpolling, hadding, -⟩ := init_rest digest existing cooldown clock
  refine ⟨fun reg hreg => ?_, fun port hp => ?_⟩
  · rw [hpolling, hadding] at hreg
    simp at hreg
  · rw [hpoint] at hp
    cases hp

theorem Issued.step (h : s.Issued) (hs : Stepped digest cfg s e s') : s'.Issued := by
  cases hs with
  | @tick now output =>
    have hpt : ∀ port, (s.tick cfg now output).point ≠ .popen port := by
      intro port
      rcases s.tick_point cfg now output with hpt | ⟨hpt, -⟩ | ⟨hpt, -⟩ <;> simp [hpt]
    refine ⟨fun reg hreg => ?_, fun port hp => absurd hp (hpt port)⟩
    obtain ⟨port, hlt, hid, -⟩ := h.regs reg hreg
    exact ⟨port, hlt, hid, hpt port⟩
  | reserved =>
    refine ⟨fun reg hreg => ?_, fun port hp => ?_⟩
    · obtain ⟨port, hlt, hid, -⟩ := h.regs reg hreg
      exact ⟨port, Nat.lt_succ_of_lt hlt, hid, fun he => hlt.ne' (TickPoint.popen.inj he)⟩
    · obtain rfl := TickPoint.popen.inj hp
      exact Nat.lt_succ_self _
  | @started port proc hp =>
    refine ⟨fun reg hreg => ?_, fun port hp => by cases hp⟩
    simp only [List.mem_append, List.mem_singleton] at hreg
    rcases hreg with (hreg | rfl) | hreg
    · obtain ⟨port, hlt, hid, -⟩ := h.regs reg (.inl hreg)
      exact ⟨port, hlt, hid, by simp⟩
    · exact ⟨port, h.starting port hp, rfl, by simp⟩
    · obtain ⟨port, hlt, hid, -⟩ := h.regs reg (.inr hreg)
      exact ⟨port, hlt, hid, by simp⟩
  | raised | notOwned | forgotten | removed | terminated =>
    refine ⟨fun reg hreg => ?_, fun port hp => by cases hp⟩
    obtain ⟨port, hlt, hid, -⟩ := h.regs reg hreg
    exact ⟨port, hlt, hid, by simp⟩
  | setCooldown | registered => exact ⟨h.regs, h.starting⟩
  | answered hreg' =>
    refine ⟨fun reg hreg => h.regs reg ?_, h.starting⟩
    rcases hreg with hreg | hreg
    · exact .inl (List.mem_of_mem_erase hreg)
    · rcases List.mem_append.mp hreg with hreg | hreg
      · exact .inr hreg
      · exact .inl (List.mem_singleton.mp hreg ▸ hreg')
  | gaveUp =>
    exact ⟨fun reg hreg => h.regs reg (hreg.imp_left List.mem_of_mem_erase), h.starting⟩
  | added =>
    exact ⟨fun reg hreg => h.regs reg (hreg.imp_right List.mem_of_mem_erase), h.starting⟩

/-! ### Whole runs -/

/-- The first node that is added without a worker is left behind. -/
theorem Issued.ghost (h : s.Issued) (hok : ¬s.RegistersWorker e)
    (hs : Stepped digest cfg s e s') : ∃ port, s'.Ghost port := by
  cases hs with
  | @added reg hreg =>
    obtain ⟨port, hlt, hid, hp⟩ := h.regs reg (.inr hreg)
    simp only [RegistersWorker, not_or, not_exists, Bool.not_eq_true, hid] at hok
    refine ⟨port, ?_, hok.1, hok.2, hlt, hp⟩
    simp [ConsistentHashRing.contains_addNode, hid]
  | _ => exact absurd trivial hok

theorem accounted_or_ghost {cooldown clock : K} {events : List (AutoscalingEvent K)}
    (h : (machine digest cfg existing cooldown clock).Run events s) :
    (s.Accounted ∧ (machine digest cfg existing cooldown clock).Meets RegistersWorker events) ∨
      ((∃ port, s.Ghost port) ∧
        ¬(machine digest cfg existing cooldown clock).Meets RegistersWorker events) := by
  induction h with
  | nil => exact .inl ⟨accounted_init cooldown clock, Machine.Meets.nil⟩
  | @snoc events s e s' hr hs ih =>
    have hissued : s.Issued := Machine.Reachable.invariant (issued_init cooldown clock)
      (fun _ _ _ hI hs => hI.step (stepped hs)) ⟨events, hr⟩
    rcases ih with ⟨hacc, hmeets⟩ | ⟨⟨port, hghost⟩, hmeets⟩
    · by_cases hok : s.RegistersWorker e
      · exact .inl ⟨hacc.step hok (stepped hs), hmeets.snoc hr hok⟩
      · exact .inr ⟨hissued.ghost hok (stepped hs), fun hm => hok (hm.last hr)⟩
    · exact .inr ⟨⟨port, hghost.step (stepped hs)⟩,
        fun hm => hmeets (hm.mono (List.prefix_append _ _))⟩

/-- Between the scale-downs, every autoscaled node in the ring is a worker if and only if
every registration so far has found its worker in place; whether one is in flight makes no
difference. -/
theorem no_ghost_iff {cooldown clock : K} {events : List (AutoscalingEvent K)}
    (h : (machine digest cfg existing cooldown clock).Run events s)
    (hp : ∀ nodeId proc, s.point ≠ .removeNode nodeId proc) :
    (∀ port, s.ring.nodes.contains (Autoscaler.autoId port) = true →
      s.autoscaler.workers.contains (Autoscaler.autoId port) = true) ↔
    (machine digest cfg existing cooldown clock).Meets RegistersWorker events := by
  rcases accounted_or_ghost h with ⟨hacc, hmeets⟩ | ⟨⟨port, hghost⟩, hmeets⟩
  · refine iff_of_true (fun port hk => ?_) hmeets
    exact (hacc _ hk).resolve_right fun ⟨proc, hr⟩ => hp _ proc hr
  · refine iff_of_false (fun hall => ?_) hmeets
    have hw := hall port hghost.member
    rw [hghost.noWorker] at hw
    cases hw

/-- A worker that registers while it is one. -/
theorem no_ghost_iff_registered :
    let cfg : AutoscalerConfig ℤ := { scaleUpThreshold := 6, scaleDownThreshold := -6 }
    let m := machine (fun _ => 0) cfg workerNodes 30 100
    let events : List (AutoscalingEvent ℤ) :=
      [.tick 100 9, .reserve 100 100 20, .popen (some 1), .answer (Autoscaler.registration 8003),
        .addToRing (Autoscaler.registration 8003), .register (Autoscaler.registration 8003),
        .tick 105 0]
    ∃ s, m.Run events s ∧ s.ring.nodes.contains "worker-auto-8003" = true ∧
      m.Meets RegistersWorker events := by
  intro cfg m events
  have hexec : (m.exec m.init events).map
      (fun s => (s.point, s.ring.nodes.keys, s.autoscaler.workers.keys)) =
      some (.idle, ["worker-a", "worker-b", "worker-auto-8003"],
        ["worker-a", "worker-b", "worker-auto-8003"]) := by
    decide +kernel
  obtain ⟨s, hs, hf⟩ := Option.map_eq_some_iff.mp hexec
  obtain ⟨hpoint, hring, hworkers⟩ : s.point = .idle ∧ _ ∧ _ := by simpa using hf
  have hrun := (Machine.run_iff_exec _).mpr hs
  have hmem : ∀ k, s.ring.nodes.contains k = true ↔ s.autoscaler.workers.contains k = true := by
    intro k
    rw [PyDict.contains_iff, PyDict.contains_iff, ← PyDict.mem_keys_iff, ← PyDict.mem_keys_iff,
      hring, hworkers]
  refine ⟨s, hrun, ?_, (no_ghost_iff hrun (by simp [hpoint])).mp fun port => (hmem _).mp⟩
  rw [PyDict.contains_iff, ← PyDict.mem_keys_iff, hring]
  decide

/-- The worker answers while it is being scaled down, after the cooldown, and its thread adds
it when it has been terminated. -/
theorem terminated_worker_in_ring :
    let cfg : AutoscalerConfig ℤ := { scaleUpThreshold := 6, scaleDownThreshold := -6 }
    let m := machine (fun _ => 0) cfg workerNodes 30 100
    let events : List (AutoscalingEvent ℤ) :=
      [.tick 100 9, .reserve 100 100 20, .popen (some 1), .tick 135 (-9), .scaleDown 135 135 0,
        .answer (Autoscaler.registration 8003), .removeNode, .terminate,
        .addToRing (Autoscaler.registration 8003), .register (Autoscaler.registration 8003),
        .tick 140 0]
    ∃ s, m.Run events s ∧ s.point = .idle ∧ s.polling = [] ∧ s.adding = [] ∧
      s.registering = [] ∧
      s.ring.nodes.contains (Autoscaler.autoId 8003) = true ∧
      s.autoscaler.workers.contains (Autoscaler.autoId 8003) = false := by
  intro cfg m events
  have hexec : (m.exec m.init events).map (fun s => (s.point,
      s.polling ++ s.adding ++ s.registering,
      s.ring.nodes.contains (Autoscaler.autoId 8003),
      s.autoscaler.workers.contains (Autoscaler.autoId 8003))) = some (.idle, [], true, false) := by
    decide +kernel
  obtain ⟨s, hs, hf⟩ := Option.map_eq_some_iff.mp hexec
  exact ⟨s, (Machine.run_iff_exec _).mpr hs, by simpa [and_assoc] using hf⟩

end AutoscalerSystem
end InferenceCluster
