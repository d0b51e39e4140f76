import Mathlib.Algebra.BigOperators.Group.Finset.Basic
import Mathlib.Algebra.Field.Defs
import Mathlib.Data.Finset.Lattice.Fold
import Mathlib.Data.Fintype.Basic

/-! The attention of `core/attention.py`, in exact arithmetic. An array is the function of its
indices, and `exp` and `sqrt` are NumPy's. -/

namespace InferenceCluster
namespace Attention

variable {R : Type} [Field R] [LinearOrder R] (exp sqrt : R → R)

/-- `softmax` along the last axis, here the only one. -/
def softmax {n : ℕ} (x : Fin n → R) (j : Fin n) : R :=
  let top := Finset.univ.sup' ⟨j, Finset.mem_univ j⟩ x
  exp (x j - top) / ∑ k, exp (x k - top)

/-- `-1e9` above the diagonal. -/
def causalMask (seqLen : ℕ) (i j : Fin seqLen) : R := if i < j then -((10 ^ 9 : ℕ) : R) else 0

/-- An array of shape `[n_heads, seq_len, d_head]`. -/
abbrev Heads (R : Type) (nHeads seqLen dHead : ℕ) := Fin nHeads → Fin seqLen → Fin dHead → R

variable {nHeads seqLen dHead : ℕ} (Q K V : Heads R nHeads seqLen dHead)

/-- `(Q @ K.transpose(0, 2, 1)) / np.sqrt(d_head)` -/
def scores (h : Fin nHeads) (i j : Fin seqLen) : R := (∑ d, Q h i d * K h j d) / sqrt dHead

def weights (h : Fin nHeads) (i : Fin seqLen) : Fin seqLen → R :=
  softmax exp fun j => scores sqrt Q K h i j + causalMask seqLen i j

def attention : Heads R nHeads seqLen dHead := fun h i d =>
  ∑ j, weights exp sqrt Q K h i j * V h j d

end Attention
end InferenceCluster
