import InferenceCluster.Spec.Collector
import Mathlib.Algebra.Order.Field.Basic
import Mathlib.Data.List.Sort

/-! The latency window and the anomaly detector of `metrics/collector.py`, in exact
arithmetic; `sqrt` and `round` are Python's. -/

namespace InferenceCluster

variable {K : Type} [Field K] [LinearOrder K] (sqrt : K → K) (round : K → ℕ → K)

/-! ### The module `statistics` -/

def mean (data : List K) : K := data.sum / data.length

/-- The deviation of a sample, of two values at least. -/
def stdev (data : List K) : K :=
  sqrt ((data.map fun x => (x - mean data) ^ 2).sum / (data.length - 1 : ℕ))

/-- The median of sorted data. -/
def median (data : List K) : K :=
  let i := data.length / 2
  if data.length % 2 = 1 then data.getD i 0 else (data.getD (i - 1) 0 + data.getD i 0) / (2 : ℕ)

/-! ### Latency window -/

structure LatencyWindow (K : Type) where
  maxlen : ℕ := 200
  data : List K := []

structure LatencyStats (K : Type) where
  n : ℕ
  mean : K
  median : K
  p95 : K
  p99 : K
  min : K
  max : K
  stdev : K
  deriving DecidableEq

/-- `data[max(int(n * q) - 1, 0)]`, `q` in percent. -/
def percentile (q : ℕ) (data : List K) : K := data.getD (data.length * q / 100 - 1) 0

namespace LatencyWindow

def record (w : LatencyWindow K) (valueMs : K) : LatencyWindow K :=
  { w with data := appendMax w.maxlen w.data valueMs }

/-- An empty window has no statistics but its size. -/
def stats (w : LatencyWindow K) : Option (LatencyStats K) :=
  if w.data = [] then none
  else
    let data := w.data.insertionSort (· ≤ ·)
    some
      { n := data.length
        mean := round (InferenceCluster.mean data) 1
        median := round (InferenceCluster.median data) 1
        p95 := round (percentile 95 data) 1
        p99 := round (percentile 99 data) 1
        min := round (data.min?.getD 0) 1
        max := round (data.max?.getD 0) 1
        stdev := if 1 < data.length then round (InferenceCluster.stdev sqrt data) 1 else 0 }

end LatencyWindow

/-! ### Anomaly detector -/

structure AnomalyDetector (K : Type) where
  maxlen : ℕ := 100
  threshold : K
  window : List K := []
  anomalyCount : ℕ := 0

namespace AnomalyDetector

def append (det : AnomalyDetector K) (value : K) : AnomalyDetector K :=
  { det with window := appendMax det.maxlen det.window value }

/-- Whether the value is an anomaly, its z-score, and the detector after the call. -/
def check (det : AnomalyDetector K) (value : K) : (Bool × K) × AnomalyDetector K :=
  if det.window.length < 10 then ((false, 0), det.append value)
  else
    let mean := mean det.window
    let stdev := stdev sqrt det.window
    if stdev = 0 then ((false, 0), det.append value)
    else
      let z := (value - mean) / stdev
      let isAnomaly : Bool := det.threshold < |z|
      let det :=
        if isAnomaly then { det with anomalyCount := det.anomalyCount + 1 } else det
      ((isAnomaly, round z 2), det.append value)

/-- The results of a sequence of calls, and the detector after them. -/
def checks (det : AnomalyDetector K) : List K → List (Bool × K) × AnomalyDetector K
  | [] => ([], det)
  | value :: values =>
    let r := det.check sqrt round value
    let rest := r.2.checks values
    (r.1 :: rest.1, rest.2)

end AnomalyDetector
end InferenceCluster
