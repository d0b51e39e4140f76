import InferenceCluster.Sanity.Ownership

/-! Isolation of sequences: a call on one sequence, also one that raises, leaves the table,
the token count and the cached vectors of every other sequence as they were. -/

namespace InferenceCluster
namespace CacheManager

variable {cfg : BlockConfig} {α : Type}

/-- What the blocks of the other sequences hold is what their `get_kv` returns. -/
theorem Frame.getKv {s s' : CacheManager cfg α} {seqId other : String} (h : Frame seqId s s')
    (hne : other ≠ seqId) (layer : Fin cfg.numLayers) :
    s'.getKv other layer = s.getKv other layer := by
  unfold CacheManager.getKv
  rw [h.sequences other hne]
  cases hg : s.sequences.get? other with
  | none => rfl
  | some seq =>
    have hpop : (s.sequences.pop seqId).get? other = some seq := by
      rw [PyDict.get?_pop, if_neg hne, hg]
    exact congrArg some
      (CacheState.getKv_congr (fun c hc => h.contents c (mem_tables hpop hc)) layer)

/-- In every reachable state. -/
theorem sequence_isolation [Zero α] {s s' : CacheManager cfg α} {op : CacheOp cfg α}
    {seqId other : String} (h : (machine cfg α).Reachable s) (hsub : op.subject = some seqId)
    (hs : s.step op = some s') (hne : other ≠ seqId) :
    s'.sequences.get? other = s.sequences.get? other ∧
      ∀ layer, s'.getKv other layer = s.getKv other layer := by
  have hframe := ((owned_of_reachable h).step_subject hsub hs).2
  exact ⟨hframe.sequences other hne, hframe.getKv hne⟩

/-- A sequence takes over the block that another one has freed, beside a third. -/
theorem sequence_isolation_recycled :
    let append (seqId : String) (x : ℤ) : CacheOp ⟨1, 1, 1, 2, 2⟩ ℤ :=
      .appendTokenKv seqId 0 0 (fun _ => x) (fun _ => x)
    ∃ s s', (machine ⟨1, 1, 1, 2, 2⟩ ℤ).Run [.createSequence "a", .createSequence "b",
        append "b" 1, append "a" 2, .freeSequence "a", .createSequence "c"] s ∧
      s.step (append "c" 3) = some s' ∧ ∀ layer, s'.getKv "b" layer = s.getKv "b" layer := by
  intro append
  have hrun : (machine ⟨1, 1, 1, 2, 2⟩ ℤ).Run [.createSequence "a", .createSequence "b",
      append "b" 1, append "a" 2, .freeSequence "a", .createSequence "c"] _ :=
    (Machine.run_iff_exec _).mpr rfl
  have hsub : (append "c" 3).subject = some "c" := rfl
  exact ⟨_, _, hrun, rfl, (sequence_isolation ⟨_, hrun⟩ hsub rfl (by decide)).2⟩

end CacheManager
end InferenceCluster
