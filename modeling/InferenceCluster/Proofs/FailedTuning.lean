import InferenceCluster.Spec.Tuning
import Mathlib.Algebra.Order.Field.Rat
import Mathlib.Data.List.TakeWhile
import Mathlib.Tactic.NormNum

/-! What a tuning request that raises leaves behind: the fields before the one that cannot be
converted are assigned, and the controller is not reset. -/

namespace InferenceCluster
namespace ControlLoop

variable {K : Type} (float : Json K → Except PyException K) (body : PyDict String (Json K))

/-- The body does not name the field, or names a value that can be converted. -/
def Converts (f : TuningField) : Bool :=
  match body.get? f.name with
  | none => true
  | some value => (float value).isOk

/-- The value that the body asks for, or the field's own. -/
def asked (f : TuningField) (own : K) : K :=
  match body.get? f.name with
  | none => own
  | some value =>
    match float value with
    | .ok x => x
    | .error _ => own

/-- One field is as the body asks. -/
def tuneField (s : ControlLoop K) (f : TuningField) : ControlLoop K :=
  s.assign f (asked float body f (s.field f))

variable {float body}

/-! ### Fields -/

theorem assign_field (s : ControlLoop K) (f : TuningField) : s.assign f (s.field f) = s := by
  cases f <;> rfl

theorem field_assign (s : ControlLoop K) (f g : TuningField) (x : K) :
    (s.assign f x).field g = if g = f then x else s.field g := by
  cases f <;> cases g <;> rfl

variable (float body) in
theorem field_foldl {fields : List TuningField} (hn : fields.Nodup) (s : ControlLoop K)
    (g : TuningField) : (fields.foldl (tuneField float body) s).field g =
      if g ∈ fields then asked float body g (s.field g) else s.field g := by
  induction fields generalizing s with
  | nil => simp
  | cons f fields ih =>
    obtain ⟨hf, hn⟩ := List.nodup_cons.mp hn
    rw [List.foldl_cons, ih hn, tuneField, field_assign]
    by_cases hg : g = f
    · subst hg
      simp [hf]
    · simp [hg]

/-- Tuning some fields changes nothing exactly when they have the values asked for. -/
theorem foldl_eq_self_iff {fields : List TuningField} (hn : fields.Nodup) (s : ControlLoop K) :
    fields.foldl (tuneField float body) s = s ↔
      ∀ f ∈ fields, asked float body f (s.field f) = s.field f := by
  constructor
  · intro h f hf
    have hfield := field_foldl float body hn s f
    rw [h, if_pos hf] at hfield
    exact hfield.symm
  · intro h
    induction fields with
    | nil => rfl
    | cons f fields ih =>
      rw [List.foldl_cons, tuneField, h f List.mem_cons_self, assign_field]
      exact ih (List.nodup_cons.mp hn).2 fun g hg => h g (List.mem_cons_of_mem _ hg)

/-! ### The call -/

theorem converts_named {f : TuningField} {value : Json K} (hv : body.get? f.name = some value) :
    Converts float body f = (float value).isOk := by
  rw [Converts, hv]

theorem assignFields_cons (f : TuningField) (fields : List TuningField) (changed : PyDict String K)
    (s : ControlLoop K) (hf : Converts float body f = true) : ∃ changed',
      assignFields float body (f :: fields) changed s =
        assignFields float body fields changed' (tuneField float body s f) := by
  cases hv : body.get? f.name with
  | none =>
    refine ⟨changed, ?_⟩
    simp only [assignFields, hv, tuneField, asked, assign_field]
  | some value =>
    rw [converts_named hv] at hf
    cases hx : float value with
    | error e => rw [hx] at hf; cases hf
    | ok x =>
      refine ⟨changed.set f.name ((s.assign f x).field f), ?_⟩
      simp only [assignFields, hv, hx, tuneField, asked]
      rfl

theorem assignFields_raises {f : TuningField} (fields : List TuningField)
    (changed : PyDict String K) (s : ControlLoop K) (hf : Converts float body f = false) :
    ∃ e, assignFields float body (f :: fields) changed s = .error e s := by
  cases hv : body.get? f.name with
  | none => rw [Converts, hv] at hf; cases hf
  | some value =>
    rw [converts_named hv] at hf
    cases hx : float value with
    | error e => exact ⟨e, by simp only [assignFields, hv, hx]; rfl⟩
    | ok x => rw [hx] at hf; cases hf

variable (float body) in
/-- The fields up to the first that cannot be converted are tuned. -/
theorem assignFields_eq (fields : List TuningField) (changed : PyDict String K)
    (s : ControlLoop K) :
    if fields.all (Converts float body) then
      ∃ changed', assignFields float body fields changed s =
        .ok changed' (fields.foldl (tuneField float body) s)
    else
      ∃ e, assignFields float body fields changed s =
        .error e ((fields.takeWhile (Converts float body)).foldl (tuneField float body) s) := by
  induction fields generalizing changed s with
  | nil => exact ⟨changed, rfl⟩
  | cons f fields ih =>
    cases hf : Converts float body f with
    | true =>
      obtain ⟨changed', hcons⟩ := assignFields_cons f fields changed s hf
      rw [hcons, List.all_cons, hf, Bool.true_and, List.takeWhile_cons_of_pos hf]
      exact ih changed' (tuneField float body s f)
    | false =>
      rw [List.all_cons, hf, Bool.false_and, if_neg Bool.false_ne_true,
        List.takeWhile_cons_of_neg (by simp [hf])]
      exact assignFields_raises fields changed s hf

variable [Field K]

/-- The state that the body asks for. -/
def tuned (float : Json K → Except PyException K) (body : PyDict String (Json K)) (reading : K)
    (s : ControlLoop K) : ControlLoop K where
  pid := { s.pid with
    kp := asked float body .kp s.pid.kp
    ki := asked float body .ki s.pid.ki
    kd := asked float body .kd s.pid.kd
    target := asked float body .target s.pid.target
    integral := 0
    lastError := 0
    lastTime := reading }
  system := { s.system with cooldown := asked float body .cooldownS s.system.cooldown }

/-- A call with values that can all be converted. -/
theorem autoscalerConfig_ok (reading : K) (s : ControlLoop K)
    (hall : TuningField.all.all (Converts float body) = true) :
    ∃ r, autoscalerConfig float body reading s = .ok r (tuned float body reading s) := by
  have hfields := assignFields_eq float body TuningField.all PyDict.empty s
  rw [hall, if_pos rfl] at hfields
  obtain ⟨changed, hfields⟩ := hfields
  simp only [autoscalerConfig, bind, EStateM.bind, hfields]
  exact ⟨_, rfl⟩

/-- A call with a value that cannot be converted. -/
theorem autoscalerConfig_error (reading : K) (s : ControlLoop K)
    (hall : TuningField.all.all (Converts float body) = false) :
    ∃ e, autoscalerConfig float body reading s = .error e
      ((TuningField.all.takeWhile (Converts float body)).foldl (tuneField float body) s) := by
  have hfields := assignFields_eq float body TuningField.all PyDict.empty s
  rw [hall, if_neg Bool.false_ne_true] at hfields
  obtain ⟨e, hfields⟩ := hfields
  simp only [autoscalerConfig, bind, EStateM.bind, hfields]
  exact ⟨e, rfl⟩

/-- A call raises where some value cannot be converted, and then changes nothing; else it
changes what the body asks for and resets the controller. -/
structure AllOrNothing (float : Json K → Except PyException K) (body : PyDict String (Json K))
    (reading : K) (s : ControlLoop K) : Prop where
  raises : (∃ e s', autoscalerConfig float body reading s = .error e s') ↔
    ∃ f value e, body.get? (TuningField.name f) = some value ∧ float value = .error e
  failed : ∀ e s', autoscalerConfig float body reading s = .error e s' → s' = s
  done : ∀ r s', autoscalerConfig float body reading s = .ok r s' → s' = tuned float body reading s

omit [Field K] in
theorem all_converts_iff : TuningField.all.all (Converts float body) = true ↔
    ¬∃ f value e, body.get? (TuningField.name f) = some value ∧ float value = .error e := by
  have hall : ∀ f, f ∈ TuningField.all := fun f => by cases f <;> decide
  rw [List.all_eq_true]
  constructor
  · rintro h ⟨f, value, e, hv, he⟩
    have hf := h f (hall f)
    rw [converts_named hv, he] at hf
    cases hf
  · intro h f _
    by_contra hf
    cases hv : body.get? f.name with
    | none => simp [Converts, hv] at hf
    | some value =>
      rw [converts_named hv] at hf
      cases he : float value with
      | error e => exact h ⟨f, value, e, hv, he⟩
      | ok x => rw [he] at hf; exact hf rfl

/-- The request is all or nothing exactly when all its values can be converted, or the fields
before the first that cannot have the values asked for already. -/
theorem all_or_nothing_iff (float : Json K → Except PyException K)
    (body : PyDict String (Json K)) (reading : K) (s : ControlLoop K) :
    AllOrNothing float body reading s ↔ TuningField.all.all (Converts float body) = true ∨
      ∀ f ∈ TuningField.all.takeWhile (Converts float body),
        asked float body f (s.field f) = s.field f := by
  cases hall : TuningField.all.all (Converts float body) with
  | true =>
    obtain ⟨r, hcall⟩ := autoscalerConfig_ok reading s hall
    refine iff_of_true ⟨iff_of_false ?_ (all_converts_iff.mp hall), ?_, ?_⟩ (.inl rfl)
    · rintro ⟨e, s', he⟩
      rw [hcall] at he
      cases he
    · intro e s' he
      rw [hcall] at he
      cases he
    · intro r' s' hr
      rw [hcall] at hr
      cases hr
      rfl
  | false =>
    obtain ⟨e, hcall⟩ := autoscalerConfig_error reading s hall
    have hn : (TuningField.all.takeWhile (Converts float body)).Nodup :=
      (List.takeWhile_sublist _).nodup (by decide)
    rw [or_iff_right Bool.false_ne_true, ← foldl_eq_self_iff hn]
    constructor
    · exact fun h => h.failed e _ hcall
    · intro h
      refine ⟨iff_of_true ⟨e, _, hcall⟩ ?_, ?_, ?_⟩
      · by_contra hnone
        rw [all_converts_iff.mpr hnone] at hall
        cases hall
      · intro e' s' he
        rw [hcall] at he
        cases he
        exact h
      · intro r s' hr
        rw [hcall] at hr
        cases hr

/-- A second value that is no number: the first is assigned, and nothing is reset. -/
theorem half_tuned :
    let body : PyDict String (Json ℚ) := (PyDict.empty.set "kp" (.number 2)).set "ki" .null
    let s : ControlLoop ℚ := (routerMachine (fun _ => 0) 0 1000).init
    (∃ s', autoscalerConfig (toFloat fun _ => none) body 5 s = .error (notANumber "NoneType") s' ∧
      s.pid.kp = 1 / 2 ∧ s'.pid.kp = 2 ∧ s'.pid.lastTime = 0) ∧
    ¬AllOrNothing (toFloat fun _ => none) body 5 s := by
  intro body s
  have hcall : ∃ s', autoscalerConfig (toFloat fun _ => none) body 5 s =
      .error (notANumber "NoneType") s' ∧ s.pid.kp = 1 / 2 ∧ s'.pid.kp = 2 ∧ s'.pid.lastTime = 0 :=
    ⟨_, rfl, rfl, rfl, rfl⟩
  refine ⟨hcall, fun h => ?_⟩
  obtain ⟨s', he, hbefore, hafter, -⟩ := hcall
  rw [h.failed _ _ he, hbefore] at hafter
  norm_num at hafter

/-! ### Beside the ticks -/

/-- The step of the control loop that assigns a field. -/
def fieldEvent : TuningField → K → ControlEvent K
  | .kp, x => .tune (.kp x)
  | .ki, x => .tune (.ki x)
  | .kd, x => .tune (.kd x)
  | .target, x => .tune (.target x)
  | .cooldownS, x => .scaling (.setCooldown x)

variable [LinearOrder K] {m : Machine (ControlLoop K) (ControlEvent K)}

variable (float body) in
theorem exec_foldl {digest : String → ℕ} {cfg : AutoscalerConfig K}
    (hm : m.step = ControlLoop.step digest cfg) (fields : List TuningField) (s : ControlLoop K) :
    ∃ events, m.exec s events = some (fields.foldl (tuneField float body) s) := by
  induction fields generalizing s with
  | nil => exact ⟨[], rfl⟩
  | cons f fields ih =>
    obtain ⟨events, hexec⟩ := ih (tuneField float body s f)
    refine ⟨fieldEvent f (asked float body f (s.field f)) :: events, ?_⟩
    have hstep : m.step s (fieldEvent f (asked float body f (s.field f))) =
        some (tuneField float body s f) := by
      rw [hm]
      cases f <;> rfl
    rw [Machine.exec, hstep]
    exact hexec

/-- A request is a run of the control loop: its assignments, and the reset unless it raises. -/
theorem exec_autoscalerConfig {digest : String → ℕ} {cfg : AutoscalerConfig K}
    (hm : m.step = ControlLoop.step digest cfg) {reading : K} {s s' : ControlLoop K}
    (h : (∃ r, autoscalerConfig float body reading s = .ok r s') ∨
      ∃ e, autoscalerConfig float body reading s = .error e s') :
    ∃ events, m.exec s events = some s' := by
  cases hall : TuningField.all.all (Converts float body) with
  | true =>
    obtain ⟨r, hcall⟩ := autoscalerConfig_ok reading s hall
    obtain ⟨events, hexec⟩ := exec_foldl float body hm TuningField.all s
    rw [hcall] at h
    rcases h with ⟨r', h⟩ | ⟨e, h⟩
    · cases h
      refine ⟨events ++ [.reset reading], ?_⟩
      rw [Machine.exec_append, hexec, Option.bind_some, Machine.exec, hm]
      rfl
    · cases h
  | false =>
    obtain ⟨e, hcall⟩ := autoscalerConfig_error reading s hall
    obtain ⟨events, hexec⟩ :=
      exec_foldl float body hm (TuningField.all.takeWhile (Converts float body)) s
    rw [hcall] at h
    rcases h with ⟨r, h⟩ | ⟨e', h⟩
    · cases h
    · cases h
      exact ⟨events, hexec⟩

end ControlLoop
end InferenceCluster
