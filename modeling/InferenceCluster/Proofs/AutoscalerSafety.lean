import InferenceCluster.Sanity.Autoscaling
import InferenceCluster.Proofs.RingFollowsHealth
import Mathlib.Algebra.Order.Group.Defs
import Mathlib.Data.List.Chain

/-! The autoscaler reads its guards in one section and acts in later ones. Four invariants,
each with what it needs of the point where the tick thread stands: the headcount, the
external workers, what has been handed out, and the spacing of the scale events. -/

namespace InferenceCluster

namespace Autoscaler

variable {K : Type}

/-- The node ids and ports that scale-ups have taken, oldest first. -/
def handedOut (a : Autoscaler K) : List (String × ℕ) :=
  a.scaleEvents.filterMap fun e => e.port.map (e.nodeId, ·)

theorem handedOut_reserve (a : Autoscaler K) (now ts queueDepth : K) :
    (a.reserve now ts queueDepth).handedOut =
      a.handedOut ++ [(autoId a.nextPort, a.nextPort)] := by
  simp [handedOut, reserve, List.filterMap_append]

end Autoscaler

namespace TickPoint

variable {K : Type}

/-- The guard of the tick, as long as its scale action is still to come. -/
def Counted (cfg : AutoscalerConfig K) (n : ℤ) : TickPoint K → Prop
  | .scaleUp _ | .popen _ => n < cfg.maxWorkers
  | .scaleDown _ => cfg.minWorkers < n
  | _ => True

/-- A worker about to be stopped is not external. -/
def Owns (existing : List Node) : TickPoint K → Prop
  | .removeNode nodeId _ | .terminate nodeId _ => ∀ node ∈ existing, node.nodeId ≠ nodeId
  | _ => True

def Reserved (handedOut : List (String × ℕ)) : TickPoint K → Prop
  | .popen port => (Autoscaler.autoId port, port) ∈ handedOut
  | _ => True

/-- The cooldown that the tick has tested is over. -/
def Cooled [LE K] (elapsed : K) : TickPoint K → Prop
  | .scaleUp cooldown | .scaleDown cooldown => cooldown ≤ elapsed
  | _ => True

end TickPoint

namespace AutoscalerSystem

variable {K : Type} [AddCommGroup K] [LinearOrder K]
variable {digest : String → ℕ} {cfg : AutoscalerConfig K} {existing : List Node}
variable {s s' : AutoscalerSystem K} {e : AutoscalingEvent K}

/-! ### Headcount -/

structure Bounded (cfg : AutoscalerConfig K) (n₀ : ℤ) (s : AutoscalerSystem K) : Prop where
  atLeast : min n₀ cfg.minWorkers ≤ s.autoscaler.workers.size
  atMost : s.autoscaler.workers.size ≤ max n₀ cfg.maxWorkers

structure Headcount (cfg : AutoscalerConfig K) (n₀ : ℤ) (s : AutoscalerSystem K) : Prop
    extends Bounded cfg n₀ s where
  counted : s.point.Counted cfg s.autoscaler.workers.size

theorem Headcount.step {n₀ : ℤ} (h : Headcount cfg n₀ s) (hs : Stepped digest cfg s e s') :
    Headcount cfg n₀ s' := by
  have hmin := h.atLeast
  have hmax := h.atMost
  have hc := h.counted
  cases hs with
  | @tick now output hp hnow =>
    refine ⟨⟨hmin, hmax⟩, ?_⟩
    rcases s.tick_point cfg now output with hpt | ⟨hpt, -, hlt⟩ | ⟨hpt, -, hlt⟩ <;> rw [hpt]
    · trivial
    · exact hlt
    · exact hlt
  | reserved hp hnow hts =>
    rw [hp] at hc
    exact ⟨⟨hmin, hmax⟩, hc⟩
  | @started port proc hp =>
    rw [hp] at hc
    change (s.autoscaler.workers.size : ℤ) < cfg.maxWorkers at hc
    have hsize := s.autoscaler.workers.size_set (Autoscaler.autoId port) (some proc)
    refine ⟨⟨?_, ?_⟩, trivial⟩
    · simp only [Autoscaler.started]
      split_ifs at hsize <;> omega
    · simp only [Autoscaler.started]
      split_ifs at hsize <;> omega
  | raised | notOwned | removed => exact ⟨⟨hmin, hmax⟩, trivial⟩
  | terminated => exact ⟨⟨hmin, hmax⟩, trivial⟩
  | forgotten hp hnow hts hproc =>
    rw [hp] at hc
    change cfg.minWorkers < (s.autoscaler.workers.size : ℤ) at hc
    have hsize := PyDict.size_pop hproc
    refine ⟨⟨?_, ?_⟩, trivial⟩
    · change _ ≤ ((s.autoscaler.workers.pop _).size : ℤ)
      omega
    · change ((s.autoscaler.workers.pop _).size : ℤ) ≤ _
      omega
  | setCooldown | answered | gaveUp | added | registered => exact ⟨⟨hmin, hmax⟩, hc⟩

/-! ### External workers -/

/-- The external workers stay, and none of them is stopped. -/
structure Kept (existing : List Node) (s : AutoscalerSystem K) : Prop where
  kept : ∀ node ∈ existing, s.autoscaler.workers.get? node.nodeId = some none
  notTerminated : ∀ t ∈ s.terminated, ∀ node ∈ existing, node.nodeId ≠ t.1

structure Ownership (existing : List Node) (s : AutoscalerSystem K) : Prop
    extends Kept existing s where
  owns : s.point.Owns existing

theorem Ownership.step (hids : ∀ node ∈ existing, ∀ port, node.nodeId ≠ Autoscaler.autoId port)
    (h : Ownership existing s) (hs : Stepped digest cfg s e s') : Ownership existing s' := by
  have hw := h.kept
  have ht := h.notTerminated
  have ho := h.owns
  cases hs with
  | @tick now output =>
    refine ⟨⟨hw, ht⟩, ?_⟩
    rcases s.tick_point cfg now output with hpt | ⟨hpt, -⟩ | ⟨hpt, -⟩ <;> rw [hpt] <;> trivial
  | reserved | raised | notOwned => exact ⟨⟨hw, ht⟩, trivial⟩
  | started hp =>
    refine ⟨⟨fun node hn => ?_, ht⟩, trivial⟩
    simp only [Autoscaler.started, PyDict.get?_set]
    rw [if_neg (hids node hn _), hw node hn]
  | @forgotten _ _ _ _ nodeId proc hp hnow hts hproc =>
    -- an external worker has no handle
    have hne : ∀ node ∈ existing, node.nodeId ≠ nodeId := by
      rintro node hn rfl
      rw [hw node hn] at hproc
      cases hproc
    refine ⟨⟨fun node hn => ?_, ht⟩, hne⟩
    simp only [PyDict.get?_pop]
    rw [if_neg (hne node hn), hw node hn]
  | removed hp =>
    rw [hp] at ho
    exact ⟨⟨hw, ht⟩, ho⟩
  | terminated hp =>
    rw [hp] at ho
    refine ⟨⟨hw, fun t hm => ?_⟩, trivial⟩
    rcases List.mem_append.mp hm with hm | hm
    · exact ht t hm
    · rw [List.mem_singleton.mp hm]
      exact ho
  | setCooldown | answered | gaveUp | added | registered => exact ⟨⟨hw, ht⟩, ho⟩

/-! ### Ids and ports -/

/-- What is handed out was never in use before. -/
structure Fresh (existing : List Node) (s : AutoscalerSystem K) : Prop where
  ids : (s.autoscaler.handedOut.map Prod.fst).Nodup
  ports : (s.autoscaler.handedOut.map Prod.snd).Nodup
  apart : ∀ w ∈ s.autoscaler.handedOut, ∀ node ∈ existing, node.nodeId ≠ w.1 ∧ node.port ≠ w.2
  origin : ∀ k, s.autoscaler.workers.contains k = true →
    (∃ node ∈ existing, node.nodeId = k) ∨ ∃ port, (k, port) ∈ s.autoscaler.handedOut

structure Allotted (existing : List Node) (s : AutoscalerSystem K) : Prop
    extends Fresh existing s where
  named : ∀ w ∈ s.autoscaler.handedOut, w.1 = Autoscaler.autoId w.2
  below : ∀ w ∈ s.autoscaler.handedOut, w.2 < s.autoscaler.nextPort
  externalBelow : ∀ node ∈ existing, node.port < s.autoscaler.nextPort
  reserved : s.point.Reserved s.autoscaler.handedOut

omit [AddCommGroup K] [LinearOrder K] in
theorem Allotted.reserve
    (hids : ∀ node ∈ existing, ∀ port, node.nodeId ≠ Autoscaler.autoId port)
    (h : Allotted existing s) (now ts queueDepth : K) {stamps : List (Stamp K)} :
    Allotted existing { s with
      autoscaler := s.autoscaler.reserve now ts queueDepth
      clock := ts
      point := .popen s.autoscaler.nextPort
      stamps } := by
  have hport : s.autoscaler.nextPort ∉ s.autoscaler.handedOut.map Prod.snd := by
    intro hm
    obtain ⟨w, hw, he⟩ := List.mem_map.mp hm
    have := h.below w hw
    omega
  have hid : Autoscaler.autoId s.autoscaler.nextPort ∉ s.autoscaler.handedOut.map Prod.fst := by
    intro hm
    obtain ⟨w, hw, he⟩ := List.mem_map.mp hm
    rw [h.named w hw] at he
    exact hport (autoId_injective he ▸ List.mem_map_of_mem hw)
  have hnext : (s.autoscaler.reserve now ts queueDepth).nextPort = s.autoscaler.nextPort + 1 := rfl
  refine ⟨⟨?_, ?_, ?_, ?_⟩, ?_, ?_, ?_, ?_⟩ <;> simp only [Autoscaler.handedOut_reserve]
  · rw [List.map_append]
    exact h.ids.append (List.nodup_singleton _) (by simpa using hid)
  · rw [List.map_append]
    exact h.ports.append (List.nodup_singleton _) (by simpa using hport)
  · intro w hw node hn
    rcases List.mem_append.mp hw with hw | hw
    · exact h.apart w hw node hn
    · rw [List.mem_singleton.mp hw]
      exact ⟨hids node hn _, (h.externalBelow node hn).ne⟩
  · intro k hk
    refine (h.origin k hk).imp_right ?_
    rintro ⟨port, hp⟩
    exact ⟨port, List.mem_append_left _ hp⟩
  · intro w hw
    rcases List.mem_append.mp hw with hw | hw
    · exact h.named w hw
    · rw [List.mem_singleton.mp hw]
  · intro w hw
    rw [hnext]
    rcases List.mem_append.mp hw with hw | hw
    · have := h.below w hw
      omega
    · rw [List.mem_singleton.mp hw]
      omega
  · intro node hn
    have := h.externalBelow node hn
    omega
  · exact List.mem_append_right _ (List.mem_singleton_self _)

theorem Allotted.step (hids : ∀ node ∈ existing, ∀ port, node.nodeId ≠ Autoscaler.autoId port)
    (h : Allotted existing s) (hs : Stepped digest cfg s e s') : Allotted existing s' := by
  have hr := h.reserved
  cases hs with
  | @tick now output =>
    refine ⟨⟨h.ids, h.ports, h.apart, h.origin⟩, h.named, h.below, h.externalBelow, ?_⟩
    rcases s.tick_point cfg now output with hpt | ⟨hpt, -⟩ | ⟨hpt, -⟩ <;> rw [hpt] <;> trivial
  | reserved => exact h.reserve hids _ _ _
  | @started port proc hp =>
    rw [hp] at hr
    refine ⟨⟨h.ids, h.ports, h.apart, fun k hk => ?_⟩, h.named, h.below, h.externalBelow,
      trivial⟩
    simp only [Autoscaler.started, PyDict.contains, PyDict.get?_set] at hk
    split_ifs at hk with he
    · exact .inr ⟨port, he ▸ hr⟩
    · exact h.origin k hk
  | raised | notOwned | removed | terminated =>
    exact ⟨⟨h.ids, h.ports, h.apart, h.origin⟩, h.named, h.below, h.externalBelow, trivial⟩
  | @forgotten now ts queueDepth _ nodeId proc hp hnow hts hproc =>
    have hout : ({ s.autoscaler with
        workers := s.autoscaler.workers.pop nodeId
        lastScale := now
        scaleEvents := s.autoscaler.scaleEvents ++
          [{ ts, action := .scaleDown, nodeId, queueDepth }] } : Autoscaler K).handedOut =
        s.autoscaler.handedOut := by
      simp [Autoscaler.handedOut, List.filterMap_append]
    refine ⟨⟨?_, ?_, ?_, fun k hk => ?_⟩, ?_, ?_, h.externalBelow, trivial⟩ <;> simp only [hout]
    · exact h.ids
    · exact h.ports
    · exact h.apart
    · simp only [PyDict.contains, PyDict.get?_pop] at hk
      split_ifs at hk
      · cases hk
      · exact h.origin k hk
    · exact h.named
    · exact h.below
  | setCooldown | answered | gaveUp | added | registered =>
    exact ⟨⟨h.ids, h.ports, h.apart, h.origin⟩, h.named, h.below, h.externalBelow, hr⟩

/-! ### Spacing -/

/-- Between two scale events lies the cooldown that the later one's tick has tested. -/
def Spaced (s : AutoscalerSystem K) : Prop :=
  s.stamps.IsChain fun a b => b.cooldown ≤ b.stored - a.stored

structure Spacing (s : AutoscalerSystem K) : Prop where
  spaced : s.Spaced
  last : ∀ st ∈ s.stamps.getLast?, st.stored = s.autoscaler.lastScale
  cooled : s.point.Cooled (s.clock - s.autoscaler.lastScale)

/-- The stamp of a scale event, made after the cooldown has been tested. -/
theorem Spacing.stamp [IsOrderedAddMonoid K] (h : Spacing s) {now cooldown : K} (hnow : s.clock ≤ now)
    (hc : cooldown ≤ s.clock - s.autoscaler.lastScale) :
    Spaced { s with stamps := s.stamps ++ [⟨now, cooldown⟩] } := by
  refine List.isChain_append.mpr ⟨h.spaced, List.isChain_singleton _, fun a ha b hb => ?_⟩
  obtain rfl : b = ⟨now, cooldown⟩ := by simpa using hb.symm
  calc cooldown ≤ s.clock - s.autoscaler.lastScale := hc
    _ ≤ now - s.autoscaler.lastScale := sub_le_sub_right hnow _
    _ = now - a.stored := by rw [h.last a ha]

theorem Spacing.step [IsOrderedAddMonoid K] (h : Spacing s) (hs : Stepped digest cfg s e s') :
    Spacing s' := by
  have hc := h.cooled
  cases hs with
  | @tick now output hp hnow =>
    refine ⟨h.spaced, h.last, ?_⟩
    rcases s.tick_point cfg now output with hpt | ⟨hpt, hcool, -⟩ | ⟨hpt, hcool, -⟩ <;> rw [hpt]
    · trivial
    · exact hcool
    · exact hcool
  | reserved hp hnow hts =>
    rw [hp] at hc
    exact ⟨h.stamp hnow hc, by simp [Autoscaler.reserve], trivial⟩
  | forgotten hp hnow hts hproc =>
    rw [hp] at hc
    exact ⟨h.stamp hnow hc, by simp, trivial⟩
  | started | raised | notOwned | removed | terminated => exact ⟨h.spaced, h.last, trivial⟩
  | setCooldown | answered | gaveUp | added | registered => exact ⟨h.spaced, h.last, hc⟩

/-! ### Whole runs -/

structure Safe (cfg : AutoscalerConfig K) (existing : List Node) (s : AutoscalerSystem K) : Prop
    extends Bounded cfg (existing.map Node.nodeId).dedup.length s, Kept existing s,
      Fresh existing s where
  spaced : s.Spaced

omit [LinearOrder K] in
theorem headcount_init (cooldown clock : K) :
    Headcount cfg (existing.map Node.nodeId).dedup.length
      (init digest existing cooldown clock) := by
  have hsize := size_init digest existing cooldown clock
  refine ⟨⟨?_, ?_⟩, ?_⟩
  · rw [hsize]
    exact min_le_left _ _
  · rw [hsize]
    exact le_max_left _ _
  · rw [(init_rest digest existing cooldown clock).2.1]
    trivial

omit [LinearOrder K] in
theorem ownership_init (cooldown clock : K) :
    Ownership existing (init digest existing cooldown clock) := by
  obtain ⟨-, hpoint, -, -, hterminated, -⟩ := init_rest digest existing cooldown clock
  refine ⟨⟨fun node hn => ?_, ?_⟩, ?_⟩
  · rw [workers_init, if_pos ⟨node, hn, rfl⟩]
  · simp [hterminated]
  · rw [hpoint]
    trivial

omit [LinearOrder K] in
theorem allotted_init (cooldown clock : K) :
    Allotted existing (init digest existing cooldown clock) := by
  obtain ⟨hevents, hpoint, -⟩ := init_rest digest existing cooldown clock
  have hout : (init digest existing cooldown clock).autoscaler.handedOut = [] := by
    rw [Autoscaler.handedOut, hevents, List.filterMap_nil]
  refine ⟨⟨by simp [hout], by simp [hout], by simp [hout], fun k hk => .inl ?_⟩,
    by simp [hout], by simp [hout], fun node hn => nextPort_init _ _ _ _ hn, ?_⟩
  · by_contra hne
    rw [PyDict.contains, workers_init, if_neg hne] at hk
    cases hk
  · rw [hpoint]
    trivial

theorem spacing_init (cooldown clock : K) : Spacing (init digest existing cooldown clock) := by
  obtain ⟨-, hpoint, -, -, -, hstamps⟩ := init_rest digest existing cooldown clock
  refine ⟨?_, by simp [hstamps], ?_⟩
  · rw [Spaced, hstamps]
    exact List.isChain_nil
  · rw [hpoint]
    trivial

/-- In every run the headcount stays between its bounds, the external workers stay, ids and
ports are fresh, and scale events are a cooldown apart. -/
theorem autoscaler_safe [IsOrderedAddMonoid K] {cooldown clock : K}
    {events : List (AutoscalingEvent K)}
    (hids : ∀ node ∈ existing, ∀ port, node.nodeId ≠ Autoscaler.autoId port)
    (h : (machine digest cfg existing cooldown clock).Run events s) : Safe cfg existing s := by
  have hreach : (machine digest cfg existing cooldown clock).Reachable s := ⟨events, h⟩
  have h₁ := hreach.invariant (headcount_init cooldown clock) fun _ _ _ hI hs => hI.step (stepped hs)
  have h₂ := hreach.invariant (ownership_init cooldown clock)
    fun _ _ _ hI hs => hI.step hids (stepped hs)
  have h₃ := hreach.invariant (allotted_init cooldown clock)
    fun _ _ _ hI hs => hI.step hids (stepped hs)
  have h₄ := hreach.invariant (spacing_init cooldown clock) fun _ _ _ hI hs => hI.step (stepped hs)
  exact ⟨h₁.toBounded, h₂.toKept, h₃.toFresh, h₄.spaced⟩

/-- A start that fails, one that works, and the started worker scaled down again. -/
theorem autoscaler_safe_cycle :
    let cfg : AutoscalerConfig ℤ := { scaleUpThreshold := 6, scaleDownThreshold := -6 }
    ∃ s, (machine (fun _ => 0) cfg workerNodes 30 100).Run
        [.tick 100 9, .reserve 100 101 20, .popen none, .tick 110 9, .setCooldown 10,
          .tick 115 9, .reserve 116 116 20, .popen (some 1), .tick 150 (-9),
          .scaleDown 150 150 0, .removeNode, .terminate] s ∧
      s.autoscaler.handedOut = [("worker-auto-8003", 8003), ("worker-auto-8004", 8004)] ∧
      s.terminated = [("worker-auto-8004", some 1)] ∧ Safe cfg workerNodes s := by
  intro cfg
  have hids : ∀ node ∈ workerNodes, ∀ port, node.nodeId ≠ Autoscaler.autoId port := by
    intro node hn port he
    have hb : isBaseline node.nodeId = true := List.any_eq_true.mpr ⟨node, hn, by simp⟩
    rw [he, autoId_not_baseline] at hb
    cases hb
  have hexec : ((machine (fun _ => 0) cfg workerNodes 30 100).exec
      (machine (fun _ => 0) cfg workerNodes 30 100).init
        [.tick 100 9, .reserve 100 101 20, .popen none, .tick 110 9, .setCooldown 10,
          .tick 115 9, .reserve 116 116 20, .popen (some 1), .tick 150 (-9),
          .scaleDown 150 150 0, .removeNode, .terminate]).map
      (fun s => (s.autoscaler.handedOut, s.terminated)) =
      some ([("worker-auto-8003", 8003), ("worker-auto-8004", 8004)],
        [("worker-auto-8004", some 1)]) := by
    decide +kernel
  obtain ⟨s, hs, hf⟩ := Option.map_eq_some_iff.mp hexec
  have hrun := (Machine.run_iff_exec _).mpr hs
  exact ⟨s, hrun, congrArg Prod.fst hf, congrArg Prod.snd hf, autoscaler_safe hids hrun⟩

end AutoscalerSystem
end InferenceCluster
