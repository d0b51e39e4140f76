import Mathlib.Algebra.Order.Field.Basic

/-! The controller of `metrics/pid.py`, in exact arithmetic. Each method runs under the
controller's lock; what `time.perf_counter()` reads there is its argument `now`. -/

namespace InferenceCluster

structure PIDController (K : Type) where
  kp : K
  ki : K
  kd : K
  target : K
  outputMin : K
  outputMax : K
  integralMax : K
  integral : K
  lastError : K
  lastTime : K

namespace PIDController

variable {K : Type} [Field K]

def init (now : K) (kp : K := 1 / 2) (ki : K := 1 / 10) (kd : K := 1 / 20) (target : K := 0)
    (outputMin : K := -2) (outputMax : K := 2) (integralMax : K := 10) : PIDController K :=
  { kp, ki, kd, target, outputMin, outputMax, integralMax
    integral := 0, lastError := 0, lastTime := now }

def reset (c : PIDController K) (now : K) : PIDController K :=
  { c with integral := 0, lastError := 0, lastTime := now }

variable [LinearOrder K]

/-- `dt`. -/
def interval (c : PIDController K) (now : K) : K :=
  let dt := now - c.lastTime
  if dt ≤ 0 then 1 / 10 ^ 6 else dt

/-- The integral of an update with error `e`: clamped, then leaking near the target. -/
def integrate (c : PIDController K) (e dt : K) : K :=
  let integral := max (-c.integralMax) (min c.integralMax (c.integral + e * dt))
  if |e| < 1 / 2 then integral * (95 / 100) else integral

/-- The output and the controller after it. -/
def update (c : PIDController K) (now measured : K) : K × PIDController K :=
  let dt := c.interval now
  let e := measured - c.target
  let p := c.kp * e
  let integral := c.integrate e dt
  let i := c.ki * integral
  let d := c.kd * (e - c.lastError) / dt
  let u := max c.outputMin (min c.outputMax (p + i + d))
  (u, { c with integral, lastError := e, lastTime := now })

end PIDController

/-- The controller that the router builds. -/
def ControlLoop.routerPid {K : Type} [Field K] (now : K) : PIDController K :=
  .init now (1 / 2) (1 / 10) (1 / 20) 0 (-2) 2

end InferenceCluster
