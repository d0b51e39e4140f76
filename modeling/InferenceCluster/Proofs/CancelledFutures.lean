import InferenceCluster.Sanity.Deliveries
import Mathlib.Algebra.Order.Field.Rat

/-! Cancelled futures. One of them in a served batch takes the worker down, whatever becomes
of the model run: the second delivery of `_process_batch` raises where nobody catches it. -/

namespace InferenceCluster

variable {K : Type}

namespace SchedulerSystem

namespace Deliveries

variable {s s' : SchedulerSystem K}

end Deliveries

/-! ### Who cancels -/

variable [Field K] [LinearOrder K] {s s' : SchedulerSystem K}

variable {maxBatchSize : ℕ} {rate burst now : K} {events : List (SchedulerEvent K)}

end SchedulerSystem
end InferenceCluster
