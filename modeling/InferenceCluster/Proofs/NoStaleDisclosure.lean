import InferenceCluster.Sanity.Naturality

/-! What `get_kv` discloses. Blocks are not cleared when they are recycled, and `get_kv` reads
a whole block where its last token is not counted yet, or slots that were counted and not
written. Two runs that differ in what other sequences append read the same exactly when no
slot that is read was last written by another sequence. -/

namespace InferenceCluster

variable {cfg : BlockConfig} {α : Type}

/-- Who wrote an element last. -/
inductive Writer where
  | nobody
  | seq (seqId : String)
  deriving DecidableEq

instance : Zero Writer := ⟨.nobody⟩

/-- A sequence other than this one. -/
def Writer.isOther (seqId : String) : Writer → Bool
  | .nobody => false
  | .seq k => k ≠ seqId

namespace CacheOp

/-- The same call with the name of the sequence in place of every element. -/
def signed : CacheOp cfg α → CacheOp cfg Writer
  | .createSequence seqId => .createSequence seqId
  | .appendTokenKv seqId layer head _ _ =>
    .appendTokenKv seqId layer head (fun _ => .seq seqId) (fun _ => .seq seqId)
  | .incrementTokenCount seqId => .incrementTokenCount seqId
  | .freeSequence seqId => .freeSequence seqId
  | .flush => .flush

/-- The calls differ at the most in the vectors that a sequence other than `seqId` appends. -/
inductive SameFor (seqId : String) : CacheOp cfg α → CacheOp cfg α → Prop
  | same (op : CacheOp cfg α) : SameFor seqId op op
  | other {k : String} (hne : k ≠ seqId) (layer : Fin cfg.numLayers) (head : Fin cfg.numHeads)
      (kVec vVec kVec' vVec' : Vec cfg α) :
      SameFor seqId (.appendTokenKv k layer head kVec vVec) (.appendTokenKv k layer head kVec' vVec')

end CacheOp

namespace CacheState

variable {β : Type}

theorem mem_gather {st : CacheState cfg α} {slab : PhysicalBlock cfg α → Slab cfg α}
    {layer : Fin cfg.numLayers} {row : Fin cfg.numHeads → Vec cfg α} :
    row ∈ st.gather slab layer ↔ ∃ p ∈ st.seq.blockTable.zipIdx, ∃ slot : Fin cfg.blockSize,
      (slot : ℕ) < st.seq.tokensInBlock p.2 ∧
        row = fun head => slab (st.allocator.pool p.1) layer head slot := by
  have hrow : ∀ (s : Slab cfg α) (n : ℕ), row ∈ (s.rows layer).take n ↔
      ∃ slot : Fin cfg.blockSize, (slot : ℕ) < n ∧ row = fun head => s layer head slot := by
    intro s n
    rw [List.mem_take_iff_getElem]
    constructor
    · rintro ⟨i, hi, rfl⟩
      rw [length_rows] at hi
      refine ⟨⟨i, by omega⟩, by simp only; omega, ?_⟩
      exact getElem_rows s layer _
    · rintro ⟨slot, hlt, rfl⟩
      refine ⟨slot, by rw [length_rows]; omega, ?_⟩
      exact getElem_rows s layer _
  simp only [gather, List.mem_flatMap, hrow]

theorem gather_map (f : α → β) (st : CacheState cfg α) (slab : PhysicalBlock cfg α → Slab cfg α)
    (slab' : PhysicalBlock cfg β → Slab cfg β)
    (hslab : ∀ block, slab' (block.map f) = (slab block).map f) (layer : Fin cfg.numLayers) :
    (st.map f).gather slab' layer = (st.gather slab layer).map fun row head => f ∘ row head := by
  unfold gather
  rw [List.map_flatMap]
  refine List.flatMap_congr fun p _ => ?_
  have hpool : (st.map f).allocator.pool p.1 = (st.allocator.pool p.1).map f := rfl
  rw [hpool, hslab, List.map_take, Slab.rows, Slab.rows, List.map_ofFn]
  rfl

/-- Where two maps agree on the slots that are read, and only there, `get_kv` reads the same
under both. -/
theorem getKv_map_eq_iff (f g : α → β) (st : CacheState cfg α) (layer : Fin cfg.numLayers) :
    (st.map f).getKv layer = (st.map g).getKv layer ↔
      ∀ p ∈ st.seq.blockTable.zipIdx, ∀ slot : Fin cfg.blockSize,
        (slot : ℕ) < st.seq.tokensInBlock p.2 → ∀ head d,
          f ((st.allocator.pool p.1).k layer head slot d) =
            g ((st.allocator.pool p.1).k layer head slot d) ∧
          f ((st.allocator.pool p.1).v layer head slot d) =
            g ((st.allocator.pool p.1).v layer head slot d) := by
  have hread : ∀ slab : PhysicalBlock cfg α → Slab cfg α,
      ((st.gather slab layer).map fun row head => f ∘ row head) =
        ((st.gather slab layer).map fun row head => g ∘ row head) ↔
      ∀ p ∈ st.seq.blockTable.zipIdx, ∀ slot : Fin cfg.blockSize,
        (slot : ℕ) < st.seq.tokensInBlock p.2 → ∀ head d,
          f (slab (st.allocator.pool p.1) layer head slot d) =
            g (slab (st.allocator.pool p.1) layer head slot d) := by
    intro slab
    rw [List.map_inj_left]
    constructor
    · intro h p hp slot hlt head d
      exact congrFun (congrFun (h _ (mem_gather.mpr ⟨p, hp, slot, hlt, rfl⟩)) head) d
    · intro h row hrow
      obtain ⟨p, hp, slot, hlt, rfl⟩ := mem_gather.mp hrow
      funext head d
      exact h p hp slot hlt head d
  unfold getKv
  rw [show (st.map f).seq = st.seq from rfl, show (st.map g).seq = st.seq from rfl]
  split_ifs with ht
  · simp [ht]
  · rw [Prod.mk.injEq, gather_map f st (·.k) (·.k) fun _ => rfl,
      gather_map g st (·.k) (·.k) fun _ => rfl, gather_map f st (·.v) (·.v) fun _ => rfl,
      gather_map g st (·.v) (·.v) fun _ => rfl, hread, hread]
    constructor
    · rintro ⟨hk, hv⟩ p hp slot hlt head d
      exact ⟨hk p hp slot hlt head d, hv p hp slot hlt head d⟩
    · intro h
      exact ⟨fun p hp slot hlt head d => (h p hp slot hlt head d).1,
        fun p hp slot hlt head d => (h p hp slot hlt head d).2⟩

end CacheState

/-! ### Two runs in one -/

/-- An element of two runs at once, with its last writer. -/
abbrev Twin (P : Writer → α → α → Prop) := { x : Writer × α × α // P x.1 x.2.1 x.2.2 }

namespace Twin

variable {P : Writer → α → α → Prop}

def writer (x : Twin P) : Writer := x.1.1

def left (x : Twin P) : α := x.1.2.1

def right (x : Twin P) : α := x.1.2.2

end Twin

namespace CacheOp

/-- Calls that are the same for a sequence have a twin in which its elements agree. -/
theorem SameFor.exists_twin {seqId : String} {op op' : CacheOp cfg α} (h : SameFor seqId op op') :
    ∃ twin : CacheOp cfg (Twin fun w (x x' : α) => w.isOther seqId = false → x = x'),
      twin.map Twin.left = op ∧ twin.map Twin.right = op' ∧ twin.map Twin.writer = op.signed := by
  cases h with
  | same =>
    cases op with
    | createSequence k => exact ⟨.createSequence k, rfl, rfl, rfl⟩
    | appendTokenKv k layer head kVec vVec =>
      exact ⟨.appendTokenKv k layer head (fun d => ⟨(.seq k, kVec d, kVec d), fun _ => rfl⟩)
        (fun d => ⟨(.seq k, vVec d, vVec d), fun _ => rfl⟩), rfl, rfl, rfl⟩
    | incrementTokenCount k => exact ⟨.incrementTokenCount k, rfl, rfl, rfl⟩
    | freeSequence k => exact ⟨.freeSequence k, rfl, rfl, rfl⟩
    | flush => exact ⟨.flush, rfl, rfl, rfl⟩
  | @other k hne layer head kVec vVec kVec' vVec' =>
    have hother : ∀ x x' : α, (Writer.seq k).isOther seqId = false → x = x' := by
      intro x x' ho
      simp [Writer.isOther, hne] at ho
    exact ⟨.appendTokenKv k layer head (fun d => ⟨(.seq k, kVec d, kVec' d), hother _ _⟩)
      (fun d => ⟨(.seq k, vVec d, vVec' d), hother _ _⟩), rfl, rfl, rfl⟩

/-- Every call has a twin in which all elements of other sequences differ. -/
theorem exists_twin_ne [Nontrivial α] (seqId : String) (op : CacheOp cfg α) :
    ∃ twin : CacheOp cfg (Twin fun w (x x' : α) => w.isOther seqId = false ↔ x = x'),
      twin.map Twin.left = op ∧ SameFor seqId op (twin.map Twin.right) ∧
        twin.map Twin.writer = op.signed := by
  cases op with
  | createSequence k => exact ⟨.createSequence k, rfl, .same _, rfl⟩
  | appendTokenKv k layer head kVec vVec =>
    by_cases hk : k = seqId
    · have hown : ∀ x : α, (Writer.seq k).isOther seqId = false ↔ x = x := by
        simp [Writer.isOther, hk]
      exact ⟨.appendTokenKv k layer head (fun d => ⟨(.seq k, kVec d, kVec d), hown _⟩)
        (fun d => ⟨(.seq k, vVec d, vVec d), hown _⟩), rfl, .same _, rfl⟩
    · choose bump hbump using fun x : α => exists_ne x
      have hother : ∀ x : α, (Writer.seq k).isOther seqId = false ↔ x = bump x := by
        simp [Writer.isOther, hk, (hbump _).symm]
      exact ⟨.appendTokenKv k layer head (fun d => ⟨(.seq k, kVec d, bump (kVec d)), hother _⟩)
        (fun d => ⟨(.seq k, vVec d, bump (vVec d)), hother _⟩), rfl, .other hk _ _ _ _ _ _, rfl⟩
  | incrementTokenCount k => exact ⟨.incrementTokenCount k, rfl, .same _, rfl⟩
  | freeSequence k => exact ⟨.freeSequence k, rfl, .same _, rfl⟩
  | flush => exact ⟨.flush, rfl, .same _, rfl⟩

theorem exists_twins {seqId : String} {ops ops' : List (CacheOp cfg α)}
    (h : List.Forall₂ (SameFor seqId) ops ops') :
    ∃ twins : List (CacheOp cfg (Twin fun w (x x' : α) => w.isOther seqId = false → x = x')),
      twins.map (map Twin.left) = ops ∧ twins.map (map Twin.right) = ops' ∧
        twins.map (map Twin.writer) = ops.map signed := by
  induction h with
  | nil => exact ⟨[], rfl, rfl, rfl⟩
  | cons hop _ ih =>
    obtain ⟨twin, rfl, rfl, hw⟩ := hop.exists_twin
    obtain ⟨twins, rfl, rfl, hws⟩ := ih
    exact ⟨twin :: twins, rfl, rfl, by rw [List.map_cons, List.map_cons, hw, hws]⟩

theorem exists_twins_ne [Nontrivial α] (seqId : String) (ops : List (CacheOp cfg α)) :
    ∃ twins : List (CacheOp cfg (Twin fun w (x x' : α) => w.isOther seqId = false ↔ x = x')),
      twins.map (map Twin.left) = ops ∧
        List.Forall₂ (SameFor seqId) ops (twins.map (map Twin.right)) ∧
        twins.map (map Twin.writer) = ops.map signed := by
  induction ops with
  | nil => exact ⟨[], rfl, .nil, rfl⟩
  | cons op ops ih =>
    obtain ⟨twin, rfl, hop, hw⟩ := op.exists_twin_ne seqId
    obtain ⟨twins, rfl, hops, hws⟩ := ih
    exact ⟨twin :: twins, rfl, .cons hop hops, by rw [List.map_cons, List.map_cons, hw, hws]⟩

end CacheOp

namespace CacheManager

variable {P : Writer → α → α → Prop}

/-- Calls on twins are calls on either side, and signed calls. -/
theorem run_twins [Zero α] (h₀ : P .nobody 0 0) {twins : List (CacheOp cfg (Twin P))}
    {s : CacheManager cfg α} {u : CacheManager cfg Writer}
    (h : (machine cfg α).Run (twins.map (CacheOp.map Twin.left)) s)
    (hu : (machine cfg Writer).Run (twins.map (CacheOp.map Twin.writer)) u) :
    ∃ t : CacheManager cfg (Twin P), t.map Twin.left = s ∧ t.map Twin.writer = u ∧
      (machine cfg α).Run (twins.map (CacheOp.map Twin.right)) (t.map Twin.right) := by
  let _ : Zero (Twin P) := ⟨⟨(.nobody, 0, 0), h₀⟩⟩
  obtain ⟨t, ht, hleft⟩ := (run_map Twin.left rfl).mp h
  obtain ⟨t', ht', hwriter⟩ := (run_map Twin.writer rfl).mp hu
  obtain rfl := ht.unique ht'
  exact ⟨t, hleft, hwriter, (run_map Twin.right rfl).mpr ⟨t, ht, rfl⟩⟩

/-- No slot that `get_kv` of the sequence reads was last written by another sequence; the
elements of `u` are their last writers. -/
def ReadsOwn (u : CacheManager cfg Writer) (seqId : String) (layer : Fin cfg.numLayers) : Prop :=
  ∀ seq ∈ u.sequences.get? seqId, ∀ p ∈ seq.blockTable.zipIdx, ∀ slot : Fin cfg.blockSize,
    (slot : ℕ) < seq.tokensInBlock p.2 → ∀ head d,
      ((u.allocator.pool p.1).k layer head slot d).isOther seqId = false ∧
      ((u.allocator.pool p.1).v layer head slot d).isOther seqId = false

theorem getKv_map_eq_iff {β : Type} (f g : α → β) (t : CacheManager cfg α) (seqId : String)
    (layer : Fin cfg.numLayers) :
    (t.map f).getKv seqId layer = (t.map g).getKv seqId layer ↔
      ∀ seq ∈ t.sequences.get? seqId, ∀ p ∈ seq.blockTable.zipIdx, ∀ slot : Fin cfg.blockSize,
        (slot : ℕ) < seq.tokensInBlock p.2 → ∀ head d,
          f ((t.allocator.pool p.1).k layer head slot d) =
            g ((t.allocator.pool p.1).k layer head slot d) ∧
          f ((t.allocator.pool p.1).v layer head slot d) =
            g ((t.allocator.pool p.1).v layer head slot d) := by
  unfold getKv
  rw [show (t.map f).sequences = t.sequences from rfl, show (t.map g).sequences = t.sequences from rfl]
  cases t.sequences.get? seqId with
  | none => simp
  | some seq =>
    rw [Option.map_some, Option.map_some, Option.some_inj]
    simp only [Option.mem_some_iff, forall_eq']
    exact CacheState.getKv_map_eq_iff f g ⟨t.allocator, seq⟩ layer

/-- Exactly where `get_kv` reads such slots only, it returns the same in every run that
differs in the vectors of other sequences. -/
theorem undisclosed_iff [Zero α] [Nontrivial α] {ops : List (CacheOp cfg α)}
    {s : CacheManager cfg α} {u : CacheManager cfg Writer} (h : (machine cfg α).Run ops s)
    (hu : (machine cfg Writer).Run (ops.map CacheOp.signed) u) (seqId : String)
    (layer : Fin cfg.numLayers) :
    (∀ ops' s', List.Forall₂ (CacheOp.SameFor seqId) ops ops' → (machine cfg α).Run ops' s' →
      s'.getKv seqId layer = s.getKv seqId layer) ↔ u.ReadsOwn seqId layer := by
  constructor
  · intro hall
    obtain ⟨twins, rfl, hsame, hw⟩ := CacheOp.exists_twins_ne seqId ops
    rw [← hw] at hu
    obtain ⟨t, rfl, rfl, hright⟩ := run_twins (by simp [Writer.isOther]) h hu
    have heq := (getKv_map_eq_iff _ _ t seqId layer).mp (hall _ _ hsame hright)
    intro seq hseq p hp slot hlt head d
    obtain ⟨hk, hv⟩ := heq seq hseq p hp slot hlt head d
    exact ⟨((t.allocator.pool p.1).k layer head slot d).2.mpr hk.symm,
      ((t.allocator.pool p.1).v layer head slot d).2.mpr hv.symm⟩
  · intro hown ops' s' hsame h'
    obtain ⟨twins, rfl, rfl, hw⟩ := CacheOp.exists_twins hsame
    rw [← hw] at hu
    obtain ⟨t, rfl, rfl, hright⟩ := run_twins (fun _ => rfl) h hu
    obtain rfl := hright.unique h'
    refine (getKv_map_eq_iff _ _ t seqId layer).mpr fun seq hseq p hp slot hlt head d => ?_
    obtain ⟨hk, hv⟩ := hown seq hseq p hp slot hlt head d
    exact ⟨(((t.allocator.pool p.1).k layer head slot d).2 hk).symm,
      (((t.allocator.pool p.1).v layer head slot d).2 hv).symm⟩

/-- The sequence "b" fills a block with two tokens and is freed; "a" gets that block, and its
first append is not counted yet. -/
def recycled (x : ℤ) : List (CacheOp ⟨1, 1, 1, 2, 1⟩ ℤ) :=
  let append (seqId : String) (x : ℤ) : CacheOp ⟨1, 1, 1, 2, 1⟩ ℤ :=
    .appendTokenKv seqId (Fin.last 0) (Fin.last 0) (fun _ => x) (fun _ => x)
  [.createSequence "b", append "b" x, .incrementTokenCount "b", append "b" x,
    .incrementTokenCount "b", .freeSequence "b", .createSequence "a", append "a" 1]

/-- Once the token is counted, `get_kv` of "a" reads its own slot only. -/
theorem undisclosed_iff_counted : ∃ s,
    (machine ⟨1, 1, 1, 2, 1⟩ ℤ).Run (recycled 7 ++ [CacheOp.incrementTokenCount "a"]) s ∧
      ∀ ops' s', List.Forall₂ (CacheOp.SameFor "a") (recycled 7 ++ [CacheOp.incrementTokenCount "a"]) ops' →
        (machine ⟨1, 1, 1, 2, 1⟩ ℤ).Run ops' s' → s'.getKv "a" 0 = s.getKv "a" 0 := by
  have h : (machine ⟨1, 1, 1, 2, 1⟩ ℤ).Run (recycled 7 ++ [CacheOp.incrementTokenCount "a"]) _ :=
    (Machine.run_iff_exec _).mpr rfl
  have hu : (machine ⟨1, 1, 1, 2, 1⟩ Writer).Run
      ((recycled 7 ++ [CacheOp.incrementTokenCount "a"]).map CacheOp.signed) _ :=
    (Machine.run_iff_exec _).mpr rfl
  refine ⟨_, h, (undisclosed_iff h hu "a" 0).mpr ?_⟩
  unfold ReadsOwn
  decide

/-- Before that it returns the second token of "b". -/
theorem recycled_disclosed : List.Forall₂ (CacheOp.SameFor "a") (recycled 7) (recycled 8) ∧
    ∃ s s', (machine ⟨1, 1, 1, 2, 1⟩ ℤ).Run (recycled 7) s ∧
      (machine ⟨1, 1, 1, 2, 1⟩ ℤ).Run (recycled 8) s' ∧ s'.getKv "a" 0 ≠ s.getKv "a" 0 := by
  constructor
  · exact .cons (.same _) (.cons (.other (by decide) ..) (.cons (.same _)
      (.cons (.other (by decide) ..) (.cons (.same _) (.cons (.same _) (.cons (.same _)
        (.cons (.same _) .nil)))))))
  · refine ⟨_, _, (Machine.run_iff_exec _).mpr rfl, (Machine.run_iff_exec _).mpr rfl, ?_⟩
    decide

end CacheManager
end InferenceCluster
