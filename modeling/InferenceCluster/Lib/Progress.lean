import InferenceCluster.Lib.Machine
import Mathlib.Data.List.Count

/-! Progress of machines: a measure that every working step lowers bounds the working steps
of a run, and a simulation in which some steps do not show. -/

universe u v w x

namespace Machine

variable {σ : Type u} {ι : Type v} (m : Machine σ ι)

/-- How many labels of an execution from `s` are work in the states they are taken in. -/
def tally (works : σ → ι → Bool) (s : σ) (is : List ι) : ℕ := (m.relabel works s is).count true

@[simp] theorem tally_nil (works : σ → ι → Bool) (s : σ) : m.tally works s [] = 0 := rfl

theorem tally_snoc (works : σ → ι → Bool) {s t : σ} {is : List ι} (h : m.exec s is = some t)
    (i : ι) : m.tally works s (is ++ [i]) = m.tally works s is + (works t i).toNat := by
  rw [tally, m.relabel_snoc works s is i h, List.count_append, tally]
  cases works t i <;> rfl

theorem exec_of_run {s t : σ} {is js : List ι} (hs : m.Run is s) (ht : m.Run (is ++ js) t) :
    m.exec s js = some t := by
  rw [run_iff_exec, exec_append] at ht
  rwa [(m.run_iff_exec).mp hs, Option.bind_some] at ht

theorem run_of_exec {s t : σ} {is js : List ι} (hs : m.Run is s) (ht : m.exec s js = some t) :
    m.Run (is ++ js) t := by
  rw [run_iff_exec, exec_append, (m.run_iff_exec).mp hs, Option.bind_some, ht]

/-- What the steps of an execution keep. -/
theorem exec_invariant {J : σ → Prop} {is : List ι} {s t : σ}
    (hstep : ∀ u i u', i ∈ is → J u → m.step u i = some u' → J u') (hJ : J s)
    (h : m.exec s is = some t) : J t := by
  induction is generalizing s with
  | nil =>
    obtain rfl : s = t := by simpa [exec] using h
    exact hJ
  | cons i is ih =>
    obtain ⟨s', hs, h⟩ := Option.bind_eq_some_iff.mp h
    exact ih (fun u j u' hj => hstep u j u' (List.mem_cons_of_mem _ hj))
      (hstep s i s' List.mem_cons_self hJ hs) h

/-- The same, with an invariant that speaks about the labels executed so far. -/
theorem exec_induction {J : List ι → σ → Prop} {is : List ι} {s t : σ} (h₀ : J [] s)
    (hstep : ∀ js u i u', i ∈ is → J js u → m.step u i = some u' → J (js ++ [i]) u')
    (h : m.exec s is = some t) : J is t := by
  induction is using List.reverseRecOn generalizing t with
  | nil =>
    obtain rfl : s = t := by simpa [exec] using h
    exact h₀
  | append_singleton is i ih =>
    rw [exec_append] at h
    obtain ⟨u, hu, hi⟩ := Option.bind_eq_some_iff.mp h
    have hu' : m.step u i = some t := by simpa [exec] using hi
    have hJ := ih (fun js v j v' hj => hstep js v j v' (List.mem_append_left _ hj)) hu
    exact hstep is u i t (List.mem_append_right _ (List.mem_singleton_self _)) hJ hu'

/-- The rule for a part of a run: `J` is what its own steps keep, and `I` and `ok` come from
the whole run. -/
theorem Run.measure {m : Machine σ ι} {ok : σ → ι → Prop} {w : σ → ι → Bool} {I J : σ → Prop}
    {μ : σ → ℕ} {is js : List ι} {s t : σ} (hI : ∀ ks u, ks <+: is ++ js → m.Run ks u → I u)
    (hok : m.Meets ok (is ++ js))
    (hstep : ∀ u j u', I u → J u → ok u j → j ∈ js → m.step u j = some u' →
      J u' ∧ μ u' + (w u j).toNat ≤ μ u)
    (hs : m.Run is s) (ht : m.Run (is ++ js) t) (hJ : J s) :
    J t ∧ m.tally w s js + μ t ≤ μ s := by
  induction js using List.reverseRecOn generalizing t with
  | nil =>
    rw [List.append_nil] at ht
    obtain rfl := ht.unique hs
    exact ⟨hJ, by simp⟩
  | append_singleton js j ih =>
    have hexec := m.exec_of_run hs ht
    rw [exec_append] at hexec
    obtain ⟨u, hu, hstep'⟩ := Option.bind_eq_some_iff.mp hexec
    have hu' : m.step u j = some t := by simpa [exec] using hstep'
    have hrun := m.run_of_exec hs hu
    rw [← List.append_assoc] at hok hI
    obtain ⟨hJu, hle⟩ := ih (fun ks v hp => hI ks v (hp.trans (List.prefix_append _ _)))
      (hok.mono (List.prefix_append _ _))
      (fun v k v' hv hJv hk hmem => hstep v k v' hv hJv hk (List.mem_append_left _ hmem)) hrun
    have hmem : j ∈ js ++ [j] := List.mem_append_right _ (List.mem_singleton_self _)
    obtain ⟨hJt, hlt⟩ := hstep u j t (hI _ u (List.prefix_append _ _) hrun) hJu (hok.last hrun)
      hmem hu'
    refine ⟨hJt, ?_⟩
    rw [m.tally_snoc w hu]
    omega

/-! ### Simulation with hidden steps -/

variable {τ : Type w} {κ : Type x}

theorem relabel_append (lab : σ → ι → κ) {s t : σ} {is : List ι} (h : m.exec s is = some t)
    (js : List ι) : m.relabel lab s (is ++ js) = m.relabel lab s is ++ m.relabel lab t js := by
  induction is generalizing s with
  | nil =>
    obtain rfl : s = t := by simpa [exec] using h
    rfl
  | cons i is ih =>
    obtain ⟨s', hs, h⟩ := Option.bind_eq_some_iff.mp h
    simp [relabel, hs, ih h]

theorem relabel_const (f : ι → κ) {s t : σ} {is : List ι} (h : m.exec s is = some t) :
    m.relabel (fun _ => f) s is = is.map f := by
  induction is generalizing s with
  | nil => rfl
  | cons i is ih =>
    obtain ⟨s', hs, h⟩ := Option.bind_eq_some_iff.mp h
    simp [relabel, hs, ih h]

/-- What a run shows to another machine. -/
def shown (lab : σ → ι → Option κ) (is : List ι) : List κ :=
  (m.relabel lab m.init is).filterMap id

@[simp] theorem shown_nil (lab : σ → ι → Option κ) : m.shown lab [] = [] := rfl

theorem shown_snoc (lab : σ → ι → Option κ) {is : List ι} {s : σ} (h : m.Run is s) (i : ι) :
    m.shown lab (is ++ [i]) = m.shown lab is ++ (lab s i).toList := by
  rw [shown, m.relabel_snoc lab m.init is i ((m.run_iff_exec).mp h), List.filterMap_append]
  cases hlab : lab s i <;> simp [shown]

theorem shown_append (lab : σ → ι → Option κ) {is : List ι} {s : σ} (h : m.Run is s)
    (js : List ι) :
    m.shown lab (is ++ js) = m.shown lab is ++ (m.relabel lab s js).filterMap id := by
  rw [shown, m.relabel_append lab ((m.run_iff_exec).mp h), List.filterMap_append]
  rfl

theorem shown_const (f : ι → Option κ) {is : List ι} {s : σ} (h : m.Run is s) :
    m.shown (fun _ => f) is = is.filterMap f := by
  rw [shown, m.relabel_const f ((m.run_iff_exec).mp h), List.filterMap_map, Function.id_comp]

theorem shown_filter (p : ι → Bool) {is : List ι} {s : σ} (h : m.Run is s) :
    m.shown (fun _ => Option.guard p) is = is.filter p := by
  rw [m.shown_const (Option.guard p) h, List.filterMap_eq_filter]

/-- A simulation for runs whose steps meet a condition: a relation that holds at the start and
that every step keeps, the other machine taking the step that is shown, if any. That machine has
taken the steps `ks` before, and all its steps meet another condition. -/
theorem Run.simulates_after_of_meets {m : Machine σ ι} {n : Machine τ κ} {R : σ → τ → Prop}
    {ok : σ → ι → Prop} {ok' : τ → κ → Prop} (lab : σ → ι → Option κ) {is : List ι} {s : σ}
    (h : m.Run is s) (hok : m.Meets ok is) {ks : List κ} {t₀ : τ} (h₀ : n.Run ks t₀)
    (hok₀ : n.Meets ok' ks) (hR₀ : R m.init t₀)
    (hhidden : ∀ s t i s', R s t → ok s i → m.step s i = some s' → lab s i = none → R s' t)
    (hshown : ∀ s t i s' k, R s t → ok s i → m.step s i = some s' → lab s i = some k →
      ∃ t', n.step t k = some t' ∧ ok' t k ∧ R s' t') :
    ∃ t, n.Run (ks ++ m.shown lab is) t ∧ n.Meets ok' (ks ++ m.shown lab is) ∧ R s t := by
  induction h with
  | nil => exact ⟨t₀, by simpa using h₀, by simpa using hok₀, hR₀⟩
  | @snoc is s i s' hr hi ih =>
    obtain ⟨t, ht, hmeets, hR⟩ := ih (hok.mono (List.prefix_append _ _))
    have hi' := hok.last hr
    rw [m.shown_snoc lab hr, ← List.append_assoc]
    cases hlab : lab s i with
    | none => exact ⟨t, by simpa using ht, by simpa using hmeets, hhidden s t i s' hR hi' hi hlab⟩
    | some k =>
      obtain ⟨t', hn, hk, hR'⟩ := hshown s t i s' k hR hi' hi hlab
      exact ⟨t', ht.snoc hn, hmeets.snoc ht hk, hR'⟩

theorem Run.simulates_of_meets {m : Machine σ ι} {n : Machine τ κ} {R : σ → τ → Prop}
    {ok : σ → ι → Prop} {ok' : τ → κ → Prop} (lab : σ → ι → Option κ) (h₀ : R m.init n.init)
    (hhidden : ∀ s t i s', R s t → ok s i → m.step s i = some s' → lab s i = none → R s' t)
    (hshown : ∀ s t i s' k, R s t → ok s i → m.step s i = some s' → lab s i = some k →
      ∃ t', n.step t k = some t' ∧ ok' t k ∧ R s' t')
    {is : List ι} {s : σ} (h : m.Run is s) (hok : m.Meets ok is) :
    ∃ t, n.Run (m.shown lab is) t ∧ n.Meets ok' (m.shown lab is) ∧ R s t :=
  h.simulates_after_of_meets lab hok Run.nil Meets.nil h₀ hhidden hshown

theorem meets_true (is : List ι) : m.Meets (fun _ _ => True) is := fun _ _ _ _ _ => trivial

theorem meets_reachable {is : List ι} {ok : σ → ι → Prop} (h : ∀ s i, m.Reachable s → ok s i) :
    m.Meets ok is :=
  fun js i _ s hr => h s i ⟨js, hr⟩

theorem Meets.and_reachable {m : Machine σ ι} {ok : σ → ι → Prop} {I : σ → Prop} {is : List ι}
    (h : m.Meets ok is) (hI : ∀ s, m.Reachable s → I s) : m.Meets (fun s i => I s ∧ ok s i) is :=
  fun js i hp s hr => ⟨hI s ⟨js, hr⟩, h js i hp s hr⟩

/-- Without conditions, from an invariant of the reachable states. -/
theorem Run.simulates_hidden {m : Machine σ ι} {n : Machine τ κ} {R : σ → τ → Prop}
    (lab : σ → ι → Option κ) (h₀ : R m.init n.init)
    (hhidden : ∀ s t i s', m.Reachable s → R s t → m.step s i = some s' → lab s i = none → R s' t)
    (hshown : ∀ s t i s' k, m.Reachable s → R s t → m.step s i = some s' → lab s i = some k →
      ∃ t', n.step t k = some t' ∧ R s' t')
    {is : List ι} {s : σ} (h : m.Run is s) :
    ∃ t, n.Run ((m.relabel lab m.init is).filterMap id) t ∧ R s t := by
  obtain ⟨t, ht, -, hR⟩ := h.simulates_of_meets (n := n) (R := R) lab h₀
    (fun s t i s' hR hr hs hlab => hhidden s t i s' hr hR hs hlab)
    (fun s t i s' k hR hr hs hlab => by
      obtain ⟨t', hn, hR'⟩ := hshown s t i s' k hr hR hs hlab
      exact ⟨t', hn, trivial, hR'⟩)
    (m.meets_reachable fun s i hr => hr)
  exact ⟨t, ht, hR⟩

/-- The other machine has matched a step into `s'`, by the step that is shown or by none. -/
def Matches (n : Machine τ κ) (R : σ → τ → Prop) (s' : σ) (t : τ) : Option κ → Prop
  | none => R s' t
  | some k => ∃ t', n.step t k = some t' ∧ R s' t'

/-- A simulation in which the other machine has already run, step by matched step. -/
theorem Run.simulates_after {m : Machine σ ι} {n : Machine τ κ} {R : σ → τ → Prop}
    {ok : σ → ι → Prop} (lab : σ → ι → Option κ) {is : List ι} {s : σ} (h : m.Run is s)
    (hok : m.Meets ok is) {ks : List κ} {t₀ : τ} (h₀ : n.Run ks t₀) (hR₀ : R m.init t₀)
    (hstep : ∀ s t i s', R s t → ok s i → m.step s i = some s' → n.Matches R s' t (lab s i)) :
    ∃ t, n.Run (ks ++ m.shown lab is) t ∧ R s t := by
  have hsim : ∃ t, n.Run (ks ++ m.shown lab is) t ∧
      n.Meets (fun _ _ => True) (ks ++ m.shown lab is) ∧ R s t := by
    refine h.simulates_after_of_meets lab hok h₀ (n.meets_true ks) hR₀
      (fun s t i s' hR hi hs hlab => ?_) (fun s t i s' k hR hi hs hlab => ?_)
    · have hmatch := hstep s t i s' hR hi hs
      rwa [hlab] at hmatch
    · have hmatch := hstep s t i s' hR hi hs
      rw [hlab] at hmatch
      obtain ⟨t', hn, hR'⟩ := hmatch
      exact ⟨t', hn, trivial, hR'⟩
  obtain ⟨t, ht, -, hR⟩ := hsim
  exact ⟨t, ht, hR⟩

/-- The steps that `p` leaves out are hidden. -/
theorem Run.filter_of_meets {m : Machine σ ι} {n : Machine τ ι} {R : σ → τ → Prop}
    {ok : σ → ι → Prop} (p : ι → Bool) (h₀ : R m.init n.init)
    (hhidden : ∀ s t i s', R s t → ok s i → m.step s i = some s' → p i = false → R s' t)
    (hshown : ∀ s t i s', R s t → ok s i → m.step s i = some s' → p i = true →
      ∃ t', n.step t i = some t' ∧ R s' t')
    {is : List ι} {s : σ} (h : m.Run is s) (hok : m.Meets ok is) :
    ∃ t, n.Run (is.filter p) t ∧ R s t := by
  have hsim : ∃ t, n.Run (m.shown (fun _ => Option.guard p) is) t ∧
      n.Meets (fun _ _ => True) (m.shown (fun _ => Option.guard p) is) ∧ R s t := by
    refine h.simulates_of_meets _ h₀ (fun s t i s' hR hi hs hlab => ?_)
      (fun s t i s' k hR hi hs hlab => ?_) hok
    · exact hhidden s t i s' hR hi hs (by simpa [Option.guard] using hlab)
    · obtain ⟨rfl, hp⟩ := Option.guard_eq_some_iff.mp hlab
      obtain ⟨t', ht', hR'⟩ := hshown s t i s' hR hi hs hp
      exact ⟨t', ht', trivial, hR'⟩
  obtain ⟨t, ht, -, hR⟩ := hsim
  exact ⟨t, by rwa [m.shown_filter p h] at ht, hR⟩

end Machine
