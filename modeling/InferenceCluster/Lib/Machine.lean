import Mathlib.Data.List.Basic
import Mathlib.Data.List.Infix

/-! Machines with labelled partial steps: runs from the initial state, the rule
that carries an invariant along a run, and the rule that turns a step-by-step
simulation into a simulation of whole runs. -/

universe u v w x

/-- A deterministic machine; `step s i = none` says that `i` cannot happen in `s`. -/
structure Machine (σ : Type u) (ι : Type v) where
  init : σ
  step : σ → ι → Option σ

namespace Machine

variable {σ : Type u} {ι : Type v} (m : Machine σ ι)

/-- `m.Run is s`: the labels `is`, oldest first, lead from the initial state to `s`. -/
inductive Run : List ι → σ → Prop
  | nil : Run [] m.init
  | snoc {is : List ι} {s : σ} {i : ι} {s' : σ} :
      Run is s → m.step s i = some s' → Run (is ++ [i]) s'

def Reachable (s : σ) : Prop := ∃ is, m.Run is s

/-- Executes a list of labels. -/
def exec (s : σ) : List ι → Option σ
  | [] => some s
  | i :: is => (m.step s i).bind fun s' => exec s' is

theorem exec_append (s : σ) (is js : List ι) :
    m.exec s (is ++ js) = (m.exec s is).bind fun s' => m.exec s' js := by
  induction is generalizing s with
  | nil => rfl
  | cons i is ih =>
    simp only [List.cons_append, exec, Option.bind_assoc]
    congr 1
    funext s'
    exact ih s'

theorem run_iff_exec {is : List ι} {s : σ} : m.Run is s ↔ m.exec m.init is = some s := by
  constructor
  · intro h
    induction h with
    | nil => rfl
    | snoc _ hs ih => simp [exec_append, ih, exec, hs]
  · intro h
    induction is using List.reverseRecOn generalizing s with
    | nil =>
      obtain rfl : m.init = s := by simpa [exec] using h
      exact Run.nil
    | append_singleton is i ih =>
      rw [exec_append] at h
      obtain ⟨s₀, h₀, h₁⟩ := Option.bind_eq_some_iff.mp h
      exact Run.snoc (ih h₀) (by simpa [exec] using h₁)

theorem Run.unique {m : Machine σ ι} {is : List ι} {s t : σ} (hs : m.Run is s)
    (ht : m.Run is t) : s = t := by
  rw [run_iff_exec] at hs ht
  exact Option.some.inj (hs.symm.trans ht)

/-- An invariant that holds at the start and that every step keeps holds in every
reachable state. -/
theorem Reachable.invariant {m : Machine σ ι} {I : σ → Prop} (h₀ : I m.init)
    (hstep : ∀ s i s', I s → m.step s i = some s' → I s') {s : σ} (h : m.Reachable s) : I s := by
  obtain ⟨is, hr⟩ := h
  induction hr with
  | nil => exact h₀
  | snoc _ hi ih => exact hstep _ _ _ ih hi

/-- Every step of the run `is` meets the condition `ok` on its label and on the state
before it. -/
def Meets (ok : σ → ι → Prop) (is : List ι) : Prop :=
  ∀ js i, js ++ [i] <+: is → ∀ s, m.Run js s → ok s i

theorem Meets.mono {m : Machine σ ι} {ok : σ → ι → Prop} {is js : List ι}
    (h : m.Meets ok is) (hp : js <+: is) : m.Meets ok js :=
  fun ks i hk => h ks i (hk.trans hp)

theorem Meets.last {m : Machine σ ι} {ok : σ → ι → Prop} {is : List ι} {i : ι} {s : σ}
    (h : m.Meets ok (is ++ [i])) (hr : m.Run is s) : ok s i :=
  h is i List.prefix_rfl s hr

theorem Meets.nil {m : Machine σ ι} {ok : σ → ι → Prop} : m.Meets ok [] := by
  intro js i h
  simp at h

theorem Meets.snoc {m : Machine σ ι} {ok : σ → ι → Prop} {is : List ι} {i : ι} {s : σ}
    (h : m.Meets ok is) (hr : m.Run is s) (hi : ok s i) : m.Meets ok (is ++ [i]) := by
  intro js j hp t ht
  rcases List.prefix_concat_iff.mp hp with heq | hp
  · obtain ⟨rfl, hj⟩ := List.append_inj' heq rfl
    obtain rfl := List.singleton_inj.mp hj
    exact (ht.unique hr) ▸ hi
  · exact h js j hp t ht

/-- A decidable condition, checked along an execution. -/
def checks (ok : σ → ι → Bool) (s : σ) : List ι → Bool
  | [] => true
  | i :: is => ok s i && (m.step s i).all fun s' => checks ok s' is

theorem checks_exec {ok : σ → ι → Bool} {s t : σ} {is : List ι} (h : m.checks ok s is = true)
    {js : List ι} {i : ι} (hp : js ++ [i] <+: is) (ht : m.exec s js = some t) : ok t i = true := by
  induction is generalizing s js with
  | nil => simp at hp
  | cons k is ih =>
    simp only [checks, Bool.and_eq_true] at h
    rcases js with _ | ⟨j, js⟩
    · obtain rfl : s = t := by simpa [exec] using ht
      obtain rfl : i = k := by simpa using hp
      exact h.1
    · obtain ⟨rfl, hp'⟩ := List.cons_prefix_cons.mp hp
      obtain ⟨s', hs, ht⟩ := Option.bind_eq_some_iff.mp ht
      have hs' := h.2
      rw [hs, Option.all_some] at hs'
      exact ih hs' hp' ht

theorem meets_of_checks {ok : σ → ι → Bool} {is : List ι} (h : m.checks ok m.init is = true) :
    m.Meets (fun s i => ok s i) is :=
  fun _ _ hp _ hr => m.checks_exec h hp ((m.run_iff_exec).mp hr)

/-- The rule for runs whose steps all meet a condition; the invariant may speak about
the labels seen so far. -/
theorem Run.invariant_of_meets {m : Machine σ ι} {ok : σ → ι → Prop} {I : List ι → σ → Prop}
    (h₀ : I [] m.init)
    (hstep : ∀ is s i s', m.Run is s → I is s → ok s i → m.step s i = some s' → I (is ++ [i]) s')
    {is : List ι} {s : σ} (h : m.Run is s) (hok : m.Meets ok is) : I is s := by
  induction h with
  | nil => exact h₀
  | snoc hr hi ih =>
    exact hstep _ _ _ _ hr (ih (hok.mono (List.prefix_append _ _))) (hok.last hr) hi

/-- The rule for an exact condition: where a step from a state with the property keeps it
if and only if the step meets the condition, the runs through such states only are the
runs whose steps all meet the condition. -/
theorem Run.invariant_iff_meets {m : Machine σ ι} {ok : σ → ι → Prop} {I : σ → Prop}
    (h₀ : I m.init) {is : List ι}
    (hstep : ∀ js s i s', js ++ [i] <+: is → m.Run js s → I s → m.step s i = some s' →
      (I s' ↔ ok s i)) {s : σ} (h : m.Run is s) :
    (∀ js t, js <+: is → m.Run js t → I t) ↔ m.Meets ok is := by
  induction h with
  | nil =>
    refine ⟨fun _ => Meets.nil, fun _ js t hp ht => ?_⟩
    obtain rfl := List.prefix_nil.mp hp
    exact ht.unique Run.nil ▸ h₀
  | @snoc is s i s' hr hi ih =>
    have ih := ih fun js s i s' hp => hstep js s i s' (hp.trans (List.prefix_append _ _))
    have hlast := hstep is s i s' List.prefix_rfl hr
    constructor
    · intro hI
      have hbefore : ∀ js t, js <+: is → m.Run js t → I t :=
        fun js t hp ht => hI js t (hp.trans (List.prefix_append _ _)) ht
      refine (ih.mp hbefore).snoc hr ((hlast (hbefore is s List.prefix_rfl hr) hi).mp ?_)
      exact hI _ s' List.prefix_rfl (hr.snoc hi)
    · intro hok js t hp ht
      have hbefore := ih.mpr (hok.mono (List.prefix_append _ _))
      rcases List.prefix_concat_iff.mp hp with rfl | hp
      · obtain rfl := ht.unique (hr.snoc hi)
        exact (hlast (hbefore is s List.prefix_rfl hr) hi).mpr (hok.last hr)
      · exact hbefore js t hp ht

/-! ### Simulation -/

variable {τ : Type w} {κ : Type x}

/-- The labels `lab s i` that a run from `s` shows to another machine. -/
def relabel (lab : σ → ι → κ) (s : σ) : List ι → List κ
  | [] => []
  | i :: is => lab s i :: ((m.step s i).map fun s' => relabel lab s' is).getD []

theorem relabel_snoc (lab : σ → ι → κ) (s : σ) (is : List ι) (i : ι) {t : σ}
    (h : m.exec s is = some t) :
    m.relabel lab s (is ++ [i]) = m.relabel lab s is ++ [lab t i] := by
  induction is generalizing s with
  | nil =>
    obtain rfl : s = t := by simpa [exec] using h
    cases hs : m.step s i <;> simp [relabel, hs]
  | cons j is ih =>
    obtain ⟨s', hs, h⟩ := Option.bind_eq_some_iff.mp h
    simp [relabel, hs, ih s' h]

/-- A relation that holds at the start and that every step of `m` keeps, the other
machine taking the step `lab s i`, relates the states that whole runs end in. -/
theorem Run.simulates {m : Machine σ ι} {n : Machine τ κ} {R : σ → τ → Prop}
    (lab : σ → ι → κ) (h₀ : R m.init n.init)
    (hstep : ∀ s t i s', m.Reachable s → R s t → m.step s i = some s' →
      ∃ t', n.step t (lab s i) = some t' ∧ R s' t')
    {is : List ι} {s : σ} (h : m.Run is s) :
    ∃ t, n.Run (m.relabel lab m.init is) t ∧ R s t := by
  induction h with
  | nil => exact ⟨n.init, Run.nil, h₀⟩
  | @snoc is s i s' hr hi ih =>
    obtain ⟨t, ht, hR⟩ := ih
    obtain ⟨t', hn, hR'⟩ := hstep s t i s' ⟨is, hr⟩ hR hi
    refine ⟨t', ?_, hR'⟩
    rw [m.relabel_snoc lab m.init is i ((m.run_iff_exec).mp hr)]
    exact ht.snoc hn

end Machine
