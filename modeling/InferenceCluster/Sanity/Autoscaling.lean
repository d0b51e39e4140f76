import InferenceCluster.Spec.Autoscaling
import InferenceCluster.Sanity.Router
import Mathlib.Algebra.Order.Group.Defs

/-! What one section of the autoscaler can do, said once for all proofs. -/

namespace InferenceCluster
namespace AutoscalerSystem

/-! ### Startup -/

variable {K : Type} {digest : String → ℕ}

theorem workers_registerWorkers (existing : List Node) (s : AutoscalerSystem K) (k : String) :
    (existing.foldl (registerWorker digest) s).autoscaler.workers.get? k =
      if ∃ node ∈ existing, node.nodeId = k then some none else s.autoscaler.workers.get? k := by
  induction existing generalizing s with
  | nil => simp
  | cons node existing ih =>
    rw [List.foldl_cons, ih]
    simp only [registerWorker, Autoscaler.registerExisting, PyDict.get?_set, List.mem_cons,
      exists_eq_or_imp]
    by_cases hk : node.nodeId = k
    · simp [hk]
    · simp [hk, Ne.symm hk]

theorem nextPort_registerWorkers (existing : List Node) (s : AutoscalerSystem K) :
    s.autoscaler.nextPort ≤ (existing.foldl (registerWorker digest) s).autoscaler.nextPort ∧
      ∀ node ∈ existing,
        node.port < (existing.foldl (registerWorker digest) s).autoscaler.nextPort := by
  induction existing generalizing s with
  | nil => exact ⟨le_rfl, by simp⟩
  | cons node existing ih =>
    obtain ⟨hle, hlt⟩ := ih (s.registerWorker digest node)
    simp only [registerWorker, Autoscaler.registerExisting] at hle
    refine ⟨(le_max_left _ _).trans hle, fun n hn => ?_⟩
    rcases List.mem_cons.mp hn with rfl | hn
    · exact (le_max_right _ _).trans hle
    · exact hlt n hn

theorem registerWorkers_rest (existing : List Node) (s : AutoscalerSystem K) :
    (existing.foldl (registerWorker digest) s).autoscaler.scaleEvents = s.autoscaler.scaleEvents ∧
    (existing.foldl (registerWorker digest) s).point = s.point ∧
    (existing.foldl (registerWorker digest) s).polling = s.polling ∧
    (existing.foldl (registerWorker digest) s).adding = s.adding ∧
    (existing.foldl (registerWorker digest) s).terminated = s.terminated ∧
    (existing.foldl (registerWorker digest) s).stamps = s.stamps := by
  induction existing generalizing s with
  | nil => exact ⟨rfl, rfl, rfl, rfl, rfl, rfl⟩
  | cons node existing ih => exact ih _

section Init

variable [Zero K] (digest) (existing : List Node) (cooldown clock : K)

/-- The external workers, without handles. -/
theorem workers_init (k : String) : (init digest existing cooldown clock).autoscaler.workers.get? k =
    if ∃ node ∈ existing, node.nodeId = k then some none else none :=
  workers_registerWorkers existing _ k

theorem size_init : (init digest existing cooldown clock).autoscaler.workers.size =
    (existing.map Node.nodeId).dedup.length := by
  have hperm : (init digest existing cooldown clock).autoscaler.workers.keys.Perm
      (existing.map Node.nodeId).dedup := by
    refine (List.perm_ext_iff_of_nodup (PyDict.nodup _) (List.nodup_dedup _)).mpr fun k => ?_
    change k ∈ PyDict.keys _ ↔ _
    rw [PyDict.mem_keys_iff, workers_init]
    by_cases hk : ∃ node ∈ existing, node.nodeId = k <;> simp [hk]
  rw [← hperm.length_eq, PyDict.keys, List.length_map, PyDict.size]

theorem nextPort_init {node : Node} (hn : node ∈ existing) :
    node.port < (init digest existing cooldown clock).autoscaler.nextPort :=
  (nextPort_registerWorkers existing _).2 node hn

theorem init_rest :
    (init digest existing cooldown clock).autoscaler.scaleEvents = [] ∧
    (init digest existing cooldown clock).point = .idle ∧
    (init digest existing cooldown clock).polling = [] ∧
    (init digest existing cooldown clock).adding = [] ∧
    (init digest existing cooldown clock).terminated = [] ∧
    (init digest existing cooldown clock).stamps = [] :=
  registerWorkers_rest existing _

end Init

/-! ### Steps -/

variable [AddCommGroup K] [LinearOrder K]

/-- A tick decides on one of three points; on the two scale actions after their guards. -/
theorem tick_point (s : AutoscalerSystem K) (cfg : AutoscalerConfig K) (now output : K) :
    (s.tick cfg now output).point = .idle ∨
    ((s.tick cfg now output).point = .scaleUp s.cooldown ∧
      s.cooldown ≤ now - s.autoscaler.lastScale ∧ s.autoscaler.workers.size < cfg.maxWorkers) ∨
    ((s.tick cfg now output).point = .scaleDown s.cooldown ∧
      s.cooldown ≤ now - s.autoscaler.lastScale ∧ cfg.minWorkers < s.autoscaler.workers.size) := by
  simp only [tick]
  split_ifs with hcool hup hdown
  · exact .inl rfl
  · exact .inr (.inl ⟨rfl, le_of_not_gt (by simpa using hcool), hup.2⟩)
  · exact .inr (.inr ⟨rfl, le_of_not_gt (by simpa using hcool), hdown.2⟩)
  · exact .inl rfl

theorem output_of_scaleUp {s : AutoscalerSystem K} {cfg : AutoscalerConfig K} {now output c : K}
    (h : (s.tick cfg now output).point = .scaleUp c) : cfg.scaleUpThreshold ≤ output := by
  simp only [tick] at h
  split_ifs at h with hcool hup
  exact hup.1

theorem output_of_scaleDown {s : AutoscalerSystem K} {cfg : AutoscalerConfig K} {now output c : K}
    (h : (s.tick cfg now output).point = .scaleDown c) : output ≤ cfg.scaleDownThreshold := by
  simp only [tick] at h
  split_ifs at h with hcool hup hdown
  exact hdown.1

/-- The steps, one constructor for each section and outcome. -/
inductive Stepped (digest : String → ℕ) (cfg : AutoscalerConfig K) (s : AutoscalerSystem K) :
    AutoscalingEvent K → AutoscalerSystem K → Prop
  | tick {now output : K} (hp : s.point = .idle) (hnow : s.clock ≤ now) :
      Stepped digest cfg s (.tick now output) (s.tick cfg now output)
  | reserved {now ts queueDepth cooldown : K} (hp : s.point = .scaleUp cooldown)
      (hnow : s.clock ≤ now) (hts : now ≤ ts) :
      Stepped digest cfg s (.reserve now ts queueDepth) { s with
        autoscaler := s.autoscaler.reserve now ts queueDepth
        clock := ts
        point := .popen s.autoscaler.nextPort
        stamps := s.stamps ++ [⟨now, cooldown⟩] }
  | started {port proc : ℕ} (hp : s.point = .popen port) :
      Stepped digest cfg s (.popen (some proc)) { s with
        autoscaler := s.autoscaler.started port proc
        point := .idle
        polling := s.polling ++ [Autoscaler.registration port] }
  | raised {port : ℕ} (hp : s.point = .popen port) :
      Stepped digest cfg s (.popen none) { s with point := .idle }
  | notOwned {now ts queueDepth cooldown : K} (hp : s.point = .scaleDown cooldown) :
      Stepped digest cfg s (.scaleDown now ts queueDepth) { s with point := .idle }
  | forgotten {now ts queueDepth cooldown : K} {nodeId : String} {proc : ℕ}
      (hp : s.point = .scaleDown cooldown) (hnow : s.clock ≤ now) (hts : now ≤ ts)
      (hproc : s.autoscaler.workers.get? nodeId = some (some proc)) :
      Stepped digest cfg s (.scaleDown now ts queueDepth) { s with
        autoscaler := { s.autoscaler with
          workers := s.autoscaler.workers.pop nodeId
          lastScale := now
          scaleEvents := s.autoscaler.scaleEvents ++
            [{ ts, action := .scaleDown, nodeId, queueDepth }] }
        clock := ts
        point := .removeNode nodeId (some proc)
        stamps := s.stamps ++ [⟨now, cooldown⟩] }
  | removed {nodeId : String} {proc : Option ℕ} (hp : s.point = .removeNode nodeId proc) :
      Stepped digest cfg s .removeNode { s with
        ring := s.ring.removeNode digest nodeId
        point := .terminate nodeId proc }
  | terminated {nodeId : String} {proc : Option ℕ} (hp : s.point = .terminate nodeId proc) :
      Stepped digest cfg s .terminate { s with
        terminated := s.terminated ++ [(nodeId, proc)]
        point := .idle }
  | setCooldown {cooldown : K} : Stepped digest cfg s (.setCooldown cooldown) { s with cooldown }
  | answered {reg : Registration} (hreg : reg ∈ s.polling) :
      Stepped digest cfg s (.answer reg) { s with
        polling := s.polling.erase reg
        adding := s.adding ++ [reg] }
  | gaveUp {reg : Registration} (hreg : reg ∈ s.polling) :
      Stepped digest cfg s (.giveUp reg) { s with polling := s.polling.erase reg }
  | added {reg : Registration} (hreg : reg ∈ s.adding) :
      Stepped digest cfg s (.addToRing reg) { s with
        ring := s.ring.addNode digest
          { nodeId := reg.nodeId, host := "127.0.0.1", port := reg.port }
        adding := s.adding.erase reg
        registering := s.registering ++ [reg] }
  | registered {reg : Registration} (hreg : reg ∈ s.registering) :
      Stepped digest cfg s (.register reg) { s with
        monitor := s.monitor.register reg.nodeId reg.address
        registering := s.registering.erase reg }

theorem stepped {cfg : AutoscalerConfig K} {s s' : AutoscalerSystem K}
    {e : AutoscalingEvent K} (h : s.step digest cfg e = some s') : Stepped digest cfg s e s' := by
  cases e with
  | tick now output =>
    simp only [step] at h
    split at h <;> rename_i hp
    · split_ifs at h with hnow
      obtain rfl := Option.some.inj h
      exact .tick hp hnow
    · cases h
  | reserve now ts queueDepth =>
    simp only [step] at h
    split at h <;> rename_i hp
    · split_ifs at h with hnow
      obtain rfl := Option.some.inj h
      exact .reserved hp hnow.1 hnow.2
    · cases h
  | popen proc =>
    simp only [step] at h
    split at h
    · rename_i hp
      obtain rfl := Option.some.inj h
      exact .started hp
    · rename_i hp
      obtain rfl := Option.some.inj h
      exact .raised hp
    · cases h
  | scaleDown now ts queueDepth =>
    simp only [step] at h
    split at h <;> rename_i hp
    · split_ifs at h with hnow
      split at h
      · obtain rfl := Option.some.inj h
        exact .notOwned hp
      · rename_i nodeId a hd
        obtain ⟨proc, hproc, rfl⟩ := Autoscaler.scaleDown_eq_some hd
        rw [hproc, Option.getD_some] at h
        obtain rfl := Option.some.inj h
        exact .forgotten hp hnow.1 hnow.2 hproc
    · cases h
  | removeNode =>
    simp only [step] at h
    split at h <;> rename_i hp
    · obtain rfl := Option.some.inj h
      exact .removed hp
    · cases h
  | terminate =>
    simp only [step] at h
    split at h <;> rename_i hp
    · obtain rfl := Option.some.inj h
      exact .terminated hp
    · cases h
  | setCooldown cooldown =>
    obtain rfl := Option.some.inj h
    exact .setCooldown
  | answer reg =>
    simp only [step] at h
    split_ifs at h with hreg
    obtain rfl := Option.some.inj h
    exact .answered hreg
  | giveUp reg =>
    simp only [step] at h
    split_ifs at h with hreg
    obtain rfl := Option.some.inj h
    exact .gaveUp hreg
  | addToRing reg =>
    simp only [step] at h
    split_ifs at h with hreg
    obtain rfl := Option.some.inj h
    exact .added hreg
  | register reg =>
    simp only [step] at h
    split_ifs at h with hreg
    obtain rfl := Option.some.inj h
    exact .registered hreg

end AutoscalerSystem
end InferenceCluster
