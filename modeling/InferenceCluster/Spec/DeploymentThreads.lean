import InferenceCluster.Spec.Deployment
import InferenceCluster.Spec.RouterThreads

/-! The deployment whose router runs on its background threads: calls look the ring and the
monitor up between any two of their sections. -/

namespace InferenceCluster

structure DeploymentThreads (K : Type) where
  threads : RouterThreads K
  workers : String → Server K
  calls : List (RouterCall K) := []
  posts : List (Post K) := []
  answers : List (RouterAnswered K) := []

inductive DeploymentThreadsEvent (K : Type) where
  | threads (e : RouterThreadsEvent K)
  | service (e : DeploymentEvent K)

namespace DeploymentThreads

variable {K : Type}

/-- The deployment as its calls see it. -/
def seen (s : DeploymentThreads K) : Deployment K :=
  { router :=
      { ring := s.threads.scaling.ring
        monitor := s.threads.scaling.monitor
        autoscaler := s.threads.scaling.autoscaler }
    workers := s.workers
    calls := s.calls
    posts := s.posts
    answers := s.answers }

def withService (s : DeploymentThreads K) (d : Deployment K) : DeploymentThreads K :=
  { s with workers := d.workers, calls := d.calls, posts := d.posts, answers := d.answers }

variable [Field K] [LinearOrder K] [FloorRing K] (digest : String → ℕ)
  (errorText : ℕ → String → String) (cfg : AutoscalerConfig K)

/-- What the router does is done by its threads. -/
def step (s : DeploymentThreads K) : DeploymentThreadsEvent K → Option (DeploymentThreads K)
  | .threads e => (s.threads.step digest cfg e).map fun threads => { s with threads }
  | .service (.router _) => none
  | .service e => (s.seen.step digest errorText e).map s.withService

def machine (cooldown clock : K) (maxBatchSize : ℕ) (rate burst : K) (now : String → K) :
    Machine (DeploymentThreads K) (DeploymentThreadsEvent K) where
  init :=
    { threads := RouterThreads.init digest cooldown clock
      workers := fun address => (Server.machine maxBatchSize rate burst (now address)).init }
  step := step digest errorText cfg

end DeploymentThreads
end InferenceCluster
