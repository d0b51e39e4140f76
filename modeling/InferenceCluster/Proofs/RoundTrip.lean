import InferenceCluster.Sanity.CacheManager
import Mathlib.Algebra.Order.Floor.Div

/-! Writing tokens and reading them back. `_last_block_full` looks at the token count
alone, and the count does not move between the writes of one token: a token on a block
boundary allocates a block for each of its pairs of a layer and a head. -/

namespace InferenceCluster
namespace CacheState

open BlockAllocator

variable {cfg : BlockConfig} {α : Type}

theorem bind_ok {β γ : Type} {m : CacheM cfg α β} {f : β → CacheM cfg α γ} {st st' : CacheState cfg α}
    {y : γ} (h : (m >>= f) st = .ok y st') : ∃ x st₁, m st = .ok x st₁ ∧ f x st₁ = .ok y st' := by
  change (m >>= f).run st = _ at h
  rw [EStateM.run_bind] at h
  cases hm : m.run st with
  | ok x st₁ =>
    rw [hm] at h
    exact ⟨x, st₁, hm, h⟩
  | error e st₁ =>
    rw [hm] at h
    cases h

theorem ceilDiv_succ {bs : ℕ} (hbs : 1 ≤ bs) (n : ℕ) :
    (n + 1) ⌈/⌉ bs = n ⌈/⌉ bs + if n % bs = 0 then 1 else 0 := by
  obtain ⟨m, rfl⟩ := Nat.exists_eq_add_of_le' hbs
  have hdvd : m + 1 ∣ n + m + 1 ↔ n % (m + 1) = 0 := by
    rw [Nat.add_assoc, Nat.dvd_add_self_right, Nat.dvd_iff_mod_eq_zero]
  have h₁ : n + 1 + (m + 1) - 1 = n + m + 1 := by omega
  have h₂ : n + (m + 1) - 1 = n + m := by omega
  rw [Nat.ceilDiv_eq_add_pred_div, Nat.ceilDiv_eq_add_pred_div, h₁, h₂, Nat.succ_div]
  simp only [hdvd]

theorem length_order (token : TokenKv cfg α) : token.order.length = cfg.numLayers * cfg.numHeads := by
  have hall : token.order.toFinset = Finset.univ :=
    Finset.eq_univ_iff_forall.mpr fun p => List.mem_toFinset.mpr (token.complete p)
  have hcard := List.toFinset_card_of_nodup token.nodup
  rw [hall, Finset.card_univ, Fintype.card_prod, Fintype.card_fin, Fintype.card_fin] at hcard
  exact hcard.symm

/-! ### How the table grows -/

/-- The writes of one token: on a boundary each of them allocates. -/
theorem writePairs_length (hbs : 1 ≤ cfg.blockSize) (token : TokenKv cfg α)
    (ps : List (Fin cfg.numLayers × Fin cfg.numHeads)) {st st' : CacheState cfg α} (h : st.Owned)
    (hfull : st.seq.blockTable = [] → st.seq.numCachedTokens % cfg.blockSize = 0)
    (hs : writePairs token ps st = .ok () st') :
    st'.Owned ∧ st'.seq.numCachedTokens = st.seq.numCachedTokens ∧
      st'.seq.blockTable.length = st.seq.blockTable.length +
        if st.seq.numCachedTokens % cfg.blockSize = 0 then ps.length else 0 := by
  induction ps generalizing st with
  | nil =>
    injection hs with _ hs
    subst hs
    exact ⟨h, rfl, by simp⟩
  | cons p ps ih =>
    obtain ⟨_, st₁, h₁, hs⟩ := bind_ok hs
    obtain ⟨ho, hn, hl⟩ := h.append h₁
    have hiff : st.seq.lastBlockFull = true ↔ st.seq.numCachedTokens % cfg.blockSize = 0 := by
      rw [st.seq.lastBlockFull_iff hbs, or_iff_right_of_imp hfull]
    have hfull₁ : st₁.seq.blockTable = [] → st₁.seq.numCachedTokens % cfg.blockSize = 0 := by
      intro ht
      rw [ht] at hl
      rw [hn]
      exact hfull (List.eq_nil_of_length_eq_zero (by simp at hl; omega))
    obtain ⟨ho', hn', hl'⟩ := ih ho hfull₁ hs
    refine ⟨ho', hn'.trans hn, ?_⟩
    rw [hl', hl, hn]
    simp only [hiff, List.length_cons]
    split_ifs <;> omega

/-- What is known after `n` tokens: the table holds as many blocks for each of its block
boundaries as there are pairs. -/
structure Grown (st : CacheState cfg α) (n : ℕ) : Prop where
  owned : st.Owned
  count : st.seq.numCachedTokens = n
  length : st.seq.blockTable.length = cfg.numLayers * cfg.numHeads * (n ⌈/⌉ cfg.blockSize)

theorem Grown.writeToken (hpairs : 1 ≤ cfg.numLayers * cfg.numHeads) (hbs : 1 ≤ cfg.blockSize)
    {st st' : CacheState cfg α} {n : ℕ} (h : st.Grown n) {token : TokenKv cfg α}
    (hs : InferenceCluster.writeToken token st = .ok () st') : st'.Grown (n + 1) := by
  obtain ⟨_, st₁, h₁, hs⟩ := bind_ok hs
  injection hs with _ hs
  subst hs
  have hfull : st.seq.blockTable = [] → st.seq.numCachedTokens % cfg.blockSize = 0 := by
    intro ht
    have hl := h.length
    rw [ht, List.length_nil, eq_comm, Nat.mul_eq_zero] at hl
    have h0 : n ⌈/⌉ cfg.blockSize ≤ 0 := (hl.resolve_left (by omega)).le
    rw [ceilDiv_le_iff_le_mul hbs, Nat.mul_zero] at h0
    rw [h.count, Nat.le_zero.mp h0, Nat.zero_mod]
  obtain ⟨ho, hn, hl⟩ := writePairs_length hbs token token.order h.owned hfull h₁
  refine ⟨⟨ho.valid, ho.nodup⟩, ?_, ?_⟩
  · simp [incrementTokenCount, hn, h.count]
  · simp only [incrementTokenCount]
    rw [hl, h.length, h.count, ceilDiv_succ hbs, length_order, Nat.mul_add]
    split_ifs <;> simp

theorem Grown.writeTokens (hpairs : 1 ≤ cfg.numLayers * cfg.numHeads) (hbs : 1 ≤ cfg.blockSize)
    (tokens : List (TokenKv cfg α)) {st st' : CacheState cfg α} {n : ℕ} (h : st.Grown n)
    (hs : InferenceCluster.writeTokens tokens st = .ok () st') : st'.Grown (n + tokens.length) := by
  induction tokens generalizing st n with
  | nil =>
    injection hs with _ hs
    exact hs ▸ h
  | cons token tokens ih =>
    obtain ⟨_, st₁, h₁, hs⟩ := bind_ok hs
    have h' := ih (h.writeToken hpairs hbs h₁) hs
    rwa [List.length_cons, Nat.add_comm tokens.length, ← Nat.add_assoc]

/-! ### One pair: the contents -/

/-- What is known after the tokens `done` when there is one pair. -/
structure Holds (st : CacheState cfg α) (done : List (TokenKv cfg α)) : Prop where
  owned : st.Owned
  count : st.seq.numCachedTokens = done.length
  length : st.seq.blockTable.length = done.length ⌈/⌉ cfg.blockSize
  k : ∀ layer, st.gather (·.k) layer = done.map fun token => token.k layer
  v : ∀ layer, st.gather (·.v) layer = done.map fun token => token.v layer

/-- Reading right after one more token went into the slot that follows the last one read. -/
theorem gather_written [Subsingleton (Fin cfg.numHeads)] (hbs : 1 ≤ cfg.blockSize)
    (st : CacheState cfg α) {st' : CacheState cfg α} {init : List (BlockId cfg)} {b : BlockId cfg}
    (hnodup : (init ++ [b]).Nodup) (ht : st'.seq.blockTable = init ++ [b]) {n : ℕ}
    (hn : st'.seq.numCachedTokens = n + 1) (slab : PhysicalBlock cfg α → Slab cfg α)
    (layer : Fin cfg.numLayers) (head : Fin cfg.numHeads) (vec : Vec cfg α)
    (hb : slab (st'.allocator.pool b) =
      (slab (st.allocator.pool b)).put layer head (n % cfg.blockSize) vec)
    (hne : ∀ c, c ≠ b → slab (st'.allocator.pool c) = slab (st.allocator.pool c)) :
    st'.gather slab layer = (init.flatMap fun c => (slab (st.allocator.pool c)).rows layer) ++
      ((slab (st.allocator.pool b)).rows layer).take (n % cfg.blockSize) ++ [fun _ => vec] := by
  have hold : ∀ c ∈ init, (slab (st'.allocator.pool c)).rows layer =
      (slab (st.allocator.pool c)).rows layer := by
    intro c hc
    have hcb : c ≠ b := fun he =>
      (List.nodup_append.mp hnodup).2.2 c hc b (List.mem_singleton_self b) he
    rw [hne c hcb]
  have hslot : n % cfg.blockSize < ((slab (st.allocator.pool b)).rows layer).length := by
    rw [length_rows]
    exact Nat.mod_lt n hbs
  have hlast := st'.seq.tokensInLastBlock_succ hbs (by simp [ht]) hn
  rw [gather_concat hbs slab layer ht, List.flatMap_congr hold, hlast, hb, rows_put,
    take_succ_set hslot, List.append_assoc]

/-- Before a write to the last block, that block has been read up to the slot. -/
theorem gather_of_concat (hbs : 1 ≤ cfg.blockSize) {st : CacheState cfg α}
    {init : List (BlockId cfg)} {b : BlockId cfg} (ht : st.seq.blockTable = init ++ [b])
    (hn : st.seq.numCachedTokens % cfg.blockSize ≠ 0) (slab : PhysicalBlock cfg α → Slab cfg α)
    (layer : Fin cfg.numLayers) :
    st.gather slab layer = (init.flatMap fun c => (slab (st.allocator.pool c)).rows layer) ++
      ((slab (st.allocator.pool b)).rows layer).take
        (st.seq.numCachedTokens % cfg.blockSize) := by
  have hlast := st.seq.tokensInLastBlock_of_ne (by simp [ht])
  rw [gather_concat hbs slab layer ht, hlast, if_neg hn]

/-- On a block boundary every block of the table has been read completely. -/
theorem gather_of_boundary (hbs : 1 ≤ cfg.blockSize) {st : CacheState cfg α}
    (hn : st.seq.numCachedTokens % cfg.blockSize = 0) (slab : PhysicalBlock cfg α → Slab cfg α)
    (layer : Fin cfg.numLayers) :
    st.gather slab layer =
      st.seq.blockTable.flatMap fun c => (slab (st.allocator.pool c)).rows layer := by
  rcases List.eq_nil_or_concat' st.seq.blockTable with ht | ⟨init, b, ht⟩
  · simp [gather, ht]
  · have hlast := st.seq.tokensInLastBlock_of_ne (by simp [ht])
    rw [gather_concat hbs slab layer ht, hlast, if_pos hn, ht,
      List.take_of_length_le (length_rows _ _).le, List.flatMap_append, List.flatMap_singleton]

section OnePair

variable [Subsingleton (Fin cfg.numLayers)] [Subsingleton (Fin cfg.numHeads)]

/-- With one pair the written slot is a whole row: one of the two tensors, `slab`, after a
write to the block `b`, `row` being what goes into it. -/
theorem gather_map_concat (hbs : 1 ≤ cfg.blockSize) {st₁ st' : CacheState cfg α}
    {done : List (TokenKv cfg α)} {init : List (BlockId cfg)} {b : BlockId cfg}
    (hnodup : (init ++ [b]).Nodup) (ht : st'.seq.blockTable = init ++ [b])
    (hn : st'.seq.numCachedTokens = done.length + 1) (slab : PhysicalBlock cfg α → Slab cfg α)
    (row : TokenKv cfg α → Fin cfg.numLayers → Fin cfg.numHeads → Vec cfg α)
    (token : TokenKv cfg α) (p : Fin cfg.numLayers × Fin cfg.numHeads)
    (hpool : ∀ c, slab (st'.allocator.pool c) =
      if c = b then (slab (st₁.allocator.pool b)).put p.1 p.2 (done.length % cfg.blockSize)
        (row token p.1 p.2)
      else slab (st₁.allocator.pool c))
    (layer : Fin cfg.numLayers) (hread : (done.map fun token => row token layer) =
      (init.flatMap fun c => (slab (st₁.allocator.pool c)).rows layer) ++
        ((slab (st₁.allocator.pool b)).rows layer).take (done.length % cfg.blockSize)) :
    st'.gather slab layer = (done ++ [token]).map fun token => row token layer := by
  have hrow : (fun _ => row token p.1 p.2) = row token layer := by
    funext head
    rw [Subsingleton.elim layer p.1, Subsingleton.elim head p.2]
  rw [gather_written hbs st₁ hnodup ht hn slab layer p.2 (row token p.1 p.2), ← hread, hrow,
    List.map_append, List.map_singleton]
  · rw [hpool, if_pos rfl, Subsingleton.elim layer p.1]
  · intro c hc
    rw [hpool, if_neg hc]

/-- A write to the last block of `st₁`, which has been read up to the slot written. -/
theorem Holds.of_write (hbs : 1 ≤ cfg.blockSize) {st₁ : CacheState cfg α}
    {done : List (TokenKv cfg α)} (ho : st₁.Owned) (hn : st₁.seq.numCachedTokens = done.length)
    {init : List (BlockId cfg)} {b : BlockId cfg} (ht : st₁.seq.blockTable = init ++ [b])
    (hl : st₁.seq.blockTable.length = (done.length + 1) ⌈/⌉ cfg.blockSize)
    (hk : ∀ layer, (done.map fun token => token.k layer) =
      (init.flatMap fun c => (st₁.allocator.pool c).k.rows layer) ++
        ((st₁.allocator.pool b).k.rows layer).take (done.length % cfg.blockSize))
    (hv : ∀ layer, (done.map fun token => token.v layer) =
      (init.flatMap fun c => (st₁.allocator.pool c).v.rows layer) ++
        ((st₁.allocator.pool b).v.rows layer).take (done.length % cfg.blockSize))
    (token : TokenKv cfg α) (p : Fin cfg.numLayers × Fin cfg.numHeads) {st' : CacheState cfg α}
    (hst : st' = incrementTokenCount (st₁.writeSlot b p.1 p.2 st₁.seq.slot (token.k p.1 p.2)
      (token.v p.1 p.2))) : st'.Holds (done ++ [token]) := by
  have hslot : st₁.seq.slot = done.length % cfg.blockSize := by
    rw [st₁.seq.slot_of_ne hbs (by simp [ht]), hn]
  have hw := owned_iff.mpr ((owned_iff.mp ho).writeSlot (b := b) (by simp [ht]) p.1 p.2
    st₁.seq.slot (token.k p.1 p.2) (token.v p.1 p.2))
  have hpool := fun c => st₁.writeSlot_pool b c p.1 p.2 st₁.seq.slot (token.k p.1 p.2)
    (token.v p.1 p.2)
  have hpool' : st'.allocator = (st₁.writeSlot b p.1 p.2 st₁.seq.slot (token.k p.1 p.2)
    (token.v p.1 p.2)).allocator := by
    rw [hst]
    rfl
  rw [← hpool'] at hpool
  have ht' : st'.seq.blockTable = init ++ [b] := hst ▸ ht
  have hn' : st'.seq.numCachedTokens = done.length + 1 := hst ▸ congrArg (· + 1) hn
  have hnodup : (init ++ [b]).Nodup := ht ▸ ho.nodup
  refine ⟨?_, ?_, ?_, fun layer => ?_, fun layer => ?_⟩
  · rw [hst]
    exact ⟨hw.valid, hw.nodup⟩
  · rw [hn', List.length_append, List.length_singleton]
  · rw [ht', ← ht, hl, List.length_append, List.length_singleton]
  · refine gather_map_concat hbs hnodup ht' hn' (·.k) TokenKv.k token p (fun c => ?_) layer (hk layer)
    rw [← hslot]
    exact (congrArg Contents.k (hpool c)).trans (apply_ite Contents.k _ _ _)
  · refine gather_map_concat hbs hnodup ht' hn' (·.v) TokenKv.v token p (fun c => ?_) layer (hv layer)
    rw [← hslot]
    exact (congrArg Contents.v (hpool c)).trans (apply_ite Contents.v _ _ _)

/-- With one pair a token is one write, and it finds a block. -/
theorem Holds.writeToken (hbs : 1 ≤ cfg.blockSize) {st : CacheState cfg α}
    {done : List (TokenKv cfg α)} (h : st.Holds done) (token : TokenKv cfg α)
    (hone : token.order.length = 1) (hroom : (done.length + 1) ⌈/⌉ cfg.blockSize ≤ cfg.numBlocks) :
    ∃ st', InferenceCluster.writeToken token st = .ok () st' ∧ st'.Holds (done ++ [token]) := by
  obtain ⟨p, hp⟩ := List.length_eq_one_iff.mp hone
  have hrun : ∀ st₁, appendTokenKv p.1 p.2 (token.k p.1 p.2) (token.v p.1 p.2) st = .ok () st₁ →
      InferenceCluster.writeToken token st = .ok () (incrementTokenCount st₁) := by
    intro st₁ ha
    change (InferenceCluster.writeToken token).run st = _
    have ha' : (appendTokenKv p.1 p.2 (token.k p.1 p.2) (token.v p.1 p.2)).run st = .ok () st₁ := ha
    unfold InferenceCluster.writeToken
    rw [hp]
    unfold writePairs writePairs
    simp only [EStateM.run_bind, ha', EStateM.run_pure, EStateM.run_modify]
  have hfull : st.seq.lastBlockFull = true → done.length % cfg.blockSize = 0 := by
    intro hf
    rcases (st.seq.lastBlockFull_iff hbs).mp hf with ht | hn
    · have hl := h.length
      rw [ht, List.length_nil] at hl
      have h0 := (ceilDiv_le_iff_le_mul hbs).mp hl.symm.le
      rw [Nat.mul_zero, Nat.le_zero] at h0
      rw [h0, Nat.zero_mod]
    · exact h.count ▸ hn
  have hsucc := ceilDiv_succ hbs done.length
  rcases appendTokenKv_cases (owned_iff.mp h.owned) p.1 p.2 (token.k p.1 p.2) (token.v p.1 p.2) with
    ⟨hf, hfree, -⟩ | ⟨hf, b, a, hb, ha⟩ | ⟨hf, init, b, ht, ha⟩
  · -- no free block is left: the table would hold the whole pool already
    have hadd := h.owned.length_add
    rw [hfree, List.length_nil, h.length] at hadd
    rw [if_pos (hfull hf)] at hsucc
    omega
  · refine ⟨_, hrun _ (ha _ rfl), ?_⟩
    have hn : st.seq.numCachedTokens % cfg.blockSize = 0 := h.count ▸ hfull hf
    have hcont : ∀ c, (a.pool c).contents = (st.allocator.pool c).contents := popFree_contents hb
    refine Holds.of_write hbs (owned_iff.mpr ((owned_iff.mp h.owned).push hb)) h.count rfl ?_
      (fun layer => ?_) (fun layer => ?_) token p rfl
    · rw [if_pos (hfull hf)] at hsucc
      simp [setTable, hsucc, h.length]
    · have hg := gather_of_boundary hbs hn (·.k) layer
      have hk : ∀ c, (a.pool c).k = (st.allocator.pool c).k := fun c => congrArg Contents.k (hcont c)
      rw [hfull hf, List.take_zero, List.append_nil, ← h.k layer, hg]
      simp only [setTable, hk]
    · have hg := gather_of_boundary hbs hn (·.v) layer
      have hv : ∀ c, (a.pool c).v = (st.allocator.pool c).v := fun c => congrArg Contents.v (hcont c)
      rw [hfull hf, List.take_zero, List.append_nil, ← h.v layer, hg]
      simp only [setTable, hv]
  · refine ⟨_, hrun _ ha, ?_⟩
    have hn : st.seq.numCachedTokens % cfg.blockSize ≠ 0 := by
      intro hn
      rw [(st.seq.lastBlockFull_iff hbs).mpr (.inr hn)] at hf
      cases hf
    refine Holds.of_write hbs h.owned h.count ht ?_ (fun layer => ?_) (fun layer => ?_) token p rfl
    · rw [← h.count, if_neg hn, h.count] at hsucc
      rw [hsucc, h.length, Nat.add_zero]
    · rw [← h.k layer, gather_of_concat hbs ht hn, h.count]
    · rw [← h.v layer, gather_of_concat hbs ht hn, h.count]

theorem Holds.writeTokens (hbs : 1 ≤ cfg.blockSize) (tokens : List (TokenKv cfg α))
    (hone : ∀ token ∈ tokens, token.order.length = 1) {st : CacheState cfg α}
    {done : List (TokenKv cfg α)} (h : st.Holds done)
    (hroom : (done ++ tokens).length ⌈/⌉ cfg.blockSize ≤ cfg.numBlocks) :
    ∃ st', InferenceCluster.writeTokens tokens st = .ok () st' ∧ st'.Holds (done ++ tokens) := by
  induction tokens generalizing st done with
  | nil => exact ⟨st, rfl, by simpa using h⟩
  | cons token tokens ih =>
    have hle : done.length + 1 ≤ (done ++ token :: tokens).length := by simp
    have hroom₁ := (ceilDiv_le_iff_le_mul hbs).mp hroom
    obtain ⟨st₁, h₁, hh₁⟩ := h.writeToken hbs token (hone token List.mem_cons_self)
      ((ceilDiv_le_iff_le_mul hbs).mpr (hle.trans hroom₁))
    obtain ⟨st', h', hh'⟩ := ih (fun t ht => hone t (List.mem_cons_of_mem _ ht)) hh₁
      (by simpa using hroom)
    refine ⟨st', ?_, by simpa using hh'⟩
    change (InferenceCluster.writeTokens (token :: tokens)).run st = _
    have h₁' : (InferenceCluster.writeToken token).run st = .ok () st₁ := h₁
    unfold InferenceCluster.writeTokens
    rw [EStateM.run_bind, h₁']
    exact h'

end OnePair

/-! ### The round trip -/

theorem getKv_eq (st : CacheState cfg α) (layer : Fin cfg.numLayers) :
    st.getKv layer = (st.gather (·.k) layer, st.gather (·.v) layer) := by
  unfold getKv
  split_ifs with ht
  · simp [gather, ht]
  · rfl

/-- A fresh sequence takes all tokens without a raise; then `get_kv` returns, for every
layer, the vectors of all heads token by token, and the table is as short as it can be. -/
def RoundTrip (cfg : BlockConfig) (α : Type) [Zero α] (seqId : String)
    (tokens : List (TokenKv cfg α)) : Prop :=
  ∃ st, writeTokens tokens (init cfg α seqId) = .ok () st ∧
    (∀ layer, st.getKv layer =
      (tokens.map fun token => token.k layer, tokens.map fun token => token.v layer)) ∧
    st.seq.blockTable.length = tokens.length ⌈/⌉ cfg.blockSize

/-- The round trip works exactly for models with one layer and one head, and for the
empty sequence. -/
theorem roundTrip_iff [Zero α] (seqId : String) (hlayers : 1 ≤ cfg.numLayers)
    (hheads : 1 ≤ cfg.numHeads) (hbs : 1 ≤ cfg.blockSize) (tokens : List (TokenKv cfg α))
    (hpool : tokens.length ⌈/⌉ cfg.blockSize ≤ cfg.numBlocks) :
    RoundTrip cfg α seqId tokens ↔ tokens = [] ∨ cfg.numLayers = 1 ∧ cfg.numHeads = 1 := by
  have hpairs : 1 ≤ cfg.numLayers * cfg.numHeads := Nat.mul_pos hlayers hheads
  constructor
  · rintro ⟨st, hs, -, hl⟩
    have h0 : (init cfg α seqId).Grown 0 := ⟨owned_init cfg α seqId, rfl, by simp [init]⟩
    have hg := (h0.writeTokens hpairs hbs tokens hs).length
    rw [hl, Nat.zero_add] at hg
    by_cases ht : tokens = []
    · exact .inl ht
    · have hpos : 0 < tokens.length ⌈/⌉ cfg.blockSize := by
        by_contra h0
        have h1 := (ceilDiv_le_iff_le_mul hbs).mp (Nat.not_lt.mp h0)
        rw [Nat.mul_zero, Nat.le_zero, List.length_eq_zero_iff] at h1
        exact ht h1
      have hone := Nat.eq_of_mul_eq_mul_right hpos ((Nat.one_mul _).trans hg)
      exact .inr (mul_eq_one.mp hone.symm)
  · rintro (rfl | ⟨hL, hH⟩)
    · exact ⟨init cfg α seqId, rfl, fun layer => rfl, by simp [init]⟩
    · have hsL : Subsingleton (Fin cfg.numLayers) := Fin.subsingleton_iff_le_one.mpr hL.le
      have hsH : Subsingleton (Fin cfg.numHeads) := Fin.subsingleton_iff_le_one.mpr hH.le
      have h0 : (init cfg α seqId).Holds [] :=
        ⟨owned_init cfg α seqId, rfl, by simp [init], fun layer => rfl, fun layer => rfl⟩
      obtain ⟨st, hs, h⟩ := h0.writeTokens hbs tokens
        (fun token _ => by rw [length_order, hL, hH]) (by simpa using hpool)
      refine ⟨st, hs, fun layer => ?_, h.length⟩
      rw [getKv_eq, h.k, h.v]
      rfl

/-- The token whose vectors are constantly `k` and `v`, written layer by layer. -/
def TokenKv.const (cfg : BlockConfig) (k v : ℤ) : TokenKv cfg ℤ where
  order := List.finRange cfg.numLayers ×ˢ List.finRange cfg.numHeads
  nodup := (List.nodup_finRange _).product (List.nodup_finRange _)
  complete := fun _ => List.mem_product.mpr ⟨List.mem_finRange _, List.mem_finRange _⟩
  k := fun _ _ _ => k
  v := fun _ _ _ => v

theorem roundTrip_iff_onePair :
    RoundTrip ⟨1, 1, 2, 2, 2⟩ ℤ "seq"
      [TokenKv.const _ 1 2, TokenKv.const _ 3 4, TokenKv.const _ 5 6] :=
  (roundTrip_iff "seq" (by decide) (by decide) (by decide) _ (by decide)).mpr (.inr ⟨rfl, rfl⟩)

/-- One token of a model with two heads takes two blocks of four slots, and five tokens
are read back. -/
theorem roundTrip_fails_twoHeads :
    1 ⌈/⌉ 4 ≤ 4 ∧ ¬RoundTrip ⟨1, 2, 1, 4, 4⟩ ℤ "seq" [TokenKv.const _ 1 2] ∧
      ∃ st, writeTokens [TokenKv.const _ 1 2] (init ⟨1, 2, 1, 4, 4⟩ ℤ "seq") = .ok () st ∧
        st.seq.blockTable = [3, 2] ∧ (st.getKv 0).1.length = 5 := by
  have hrun : ∃ st, writeTokens [TokenKv.const _ 1 2] (init ⟨1, 2, 1, 4, 4⟩ ℤ "seq") = .ok () st ∧
      st.seq.blockTable = [3, 2] ∧ (st.getKv 0).1.length = 5 := ⟨_, rfl, rfl, rfl⟩
  refine ⟨by decide, ?_, hrun⟩
  rintro ⟨st, hs, -, hl⟩
  obtain ⟨st', hs', ht, -⟩ := hrun
  rw [hs'] at hs
  injection hs with _ hst
  rw [← hst, ht] at hl
  exact absurd hl (by decide)

end CacheState
end InferenceCluster
