import InferenceCluster.Spec.ControlLoop
import InferenceCluster.Spec.Scheduler

/-! The request `/autoscaler/config` of `router/router.py` by itself, conversions included. A
call that raises keeps what it has assigned until then. -/

namespace InferenceCluster

inductive Json (K : Type) where
  | null
  | bool (b : Bool)
  | number (x : K)
  | string (s : String)
  | array (values : List (Json K))
  | object (fields : List (String × Json K))

def notANumber (type : String) : PyException :=
  ⟨["TypeError", "Exception"],
    "float() argument must be a string or a real number, not '" ++ type ++ "'", true⟩

/-- The text goes on with the string. -/
def invalidLiteral : PyException :=
  ⟨["ValueError", "Exception"], "could not convert string to float: ", true⟩

/-- `float`, but for the literals that it reads in a string. Integers beyond the range of a double,
for which it raises `OverflowError`, are left out. -/
def toFloat {K : Type} [Zero K] [One K] (literal : String → Option K) :
    Json K → Except PyException K
  | .null => .error (notANumber "NoneType")
  | .bool b => .ok (if b then 1 else 0)
  | .number x => .ok x
  | .string s => match literal s with
    | some x => .ok x
    | none => .error invalidLiteral
  | .array _ => .error (notANumber "list")
  | .object _ => .error (notANumber "dict")

inductive TuningField where
  | kp
  | ki
  | kd
  | target
  | cooldownS
  deriving DecidableEq

def TuningField.name : TuningField → String
  | .kp => "kp"
  | .ki => "ki"
  | .kd => "kd"
  | .target => "target"
  | .cooldownS => "cooldown_s"

/-- In the order of the endpoint. -/
def TuningField.all : List TuningField := [.kp, .ki, .kd, .target, .cooldownS]

structure TuningResponse (K : Type) where
  updated : PyDict String K
  kp : K
  ki : K
  kd : K
  target : K

abbrev TuningM (K : Type) := EStateM PyException (ControlLoop K)

namespace ControlLoop

variable {K : Type}

def field (s : ControlLoop K) : TuningField → K
  | .kp => s.pid.kp
  | .ki => s.pid.ki
  | .kd => s.pid.kd
  | .target => s.pid.target
  | .cooldownS => s.system.cooldown

def assign (s : ControlLoop K) (f : TuningField) (x : K) : ControlLoop K :=
  match f with
  | .kp => { s with pid := s.pid.tune (.kp x) }
  | .ki => { s with pid := s.pid.tune (.ki x) }
  | .kd => { s with pid := s.pid.tune (.kd x) }
  | .target => { s with pid := s.pid.tune (.target x) }
  | .cooldownS => { s with system := { s.system with cooldown := x } }

/-- The assignments of `autoscaler_config`, one field after the other. -/
def assignFields (float : Json K → Except PyException K) (body : PyDict String (Json K)) :
    List TuningField → PyDict String K → TuningM K (PyDict String K)
  | [], changed => pure changed
  | f :: fields, changed =>
    match body.get? f.name with
    | none => assignFields float body fields changed
    | some value =>
      match float value with
      | .error e => throw e
      | .ok x => do
        modify fun s => s.assign f x
        assignFields float body fields (changed.set f.name ((← get).field f))

def autoscalerConfig [Field K] (float : Json K → Except PyException K)
    (body : PyDict String (Json K)) (reading : K) : TuningM K (TuningResponse K) := do
  let updated ← assignFields float body TuningField.all PyDict.empty
  modify fun s => { s with pid := s.pid.reset reading }
  let s ← get
  return ⟨updated, s.pid.kp, s.pid.ki, s.pid.kd, s.pid.target⟩

end ControlLoop
end InferenceCluster
