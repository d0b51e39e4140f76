import InferenceCluster.Sanity.RunBatch
import Mathlib.Algebra.Order.Field.Rat
import Mathlib.Tactic.NormNum

/-! With a model that treats rows independently, padding does not show: the batch path gives
every request what the fast path gives it, with the parameters that the batch runs with.
Those are the shortest `max_new_tokens` of the batch and the sampling of its first request,
so a request with others may get another text than it would get alone. -/

namespace InferenceCluster

variable {K : Type}

/-! ### The two paths -/

/-- The request with the parameters that its batch runs with. -/
def Request.inBatch (batch : List (Request K)) (req : Request K) : Request K :=
  match batch with
  | [] => req
  | first :: rest => { req with
      maxNewTokens := minMaxTokens first rest
      temperature := first.temperature
      topP := first.topP }

/-- What a request gets alone: its own continuation. -/
def answer (tokenizer : Tokenizer) (lm : LanguageModel K) (req : Request K) : String :=
  tokenizer.decode (lm.generated (tokenizer.encode req.prompt).inputIds req.temperature req.topP
    req.maxNewTokens) true

theorem forall₂_zipWith {α β γ : Type} {R : α → β → Prop} {Q : α → γ → Prop} {f : α → β → γ}
    {as : List α} {bs : List β} (h : List.Forall₂ R as bs)
    (hf : ∀ a ∈ as, ∀ b, R a b → Q a (f a b)) : List.Forall₂ Q as (List.zipWith f as bs) := by
  induction h with
  | nil => exact .nil
  | @cons a b as bs hab _ ih =>
    exact .cons (hf a List.mem_cons_self b hab)
      (ih fun a' ha' => hf a' (List.mem_cons_of_mem _ ha'))

section Paths

variable [Zero K] [One K] [LE K] [LT K] {tokenizer : Tokenizer} {generate : Generate K}
variable {lm : LanguageModel K} {special : ℕ → Bool}

/-- What `decode` makes of an output row less its prompt. -/
theorem RowIndependent.decode_row (h : RowIndependent tokenizer generate lm special)
    {args : GenerateArgs K} {ids mask out : List ℕ} (hrow : lm.IsRow args (ids, mask) out)
    (hpad : special (args.padTokenId.getD lm.defaultPad) = true) :
    tokenizer.decode (out.drop ids.length) true = tokenizer.decode
      (lm.generated (unmasked ids mask) args.temperature args.topP args.maxNewTokens) true := by
  obtain ⟨n, rfl⟩ := hrow
  rw [List.append_assoc, List.drop_left, h.skips, List.filter_append, h.skips (lm.generated _ _ _ _)]
  simp [hpad]

theorem runSingle_eq (h : RowIndependent tokenizer generate lm special) {req : Request K}
    (hreq : req.Valid) : ∃ n, runSingle tokenizer generate req =
      .ok [⟨answer tokenizer lm req, (tokenizer.encode req.prompt).inputIds.length, n⟩] := by
  obtain ⟨out, hout, hrows⟩ := h.rows (singleArgs tokenizer req)
    ⟨rfl, ⟨(tokenizer.encode req.prompt).inputIds.length, by simp [singleArgs],
      by simp [singleArgs, h.mask]⟩,
      hreq.maxNewTokens, hreq.temperature, hreq.topP⟩
  obtain ⟨row, _, hrow, hnil, rfl⟩ := List.forall₂_cons_left_iff.mp hrows
  obtain rfl := List.forall₂_nil_left_iff.mp hnil
  have htext := h.decode_row hrow h.defaultPadSpecial
  rw [h.mask, unmasked_ones] at htext
  refine ⟨(row.drop (tokenizer.encode req.prompt).inputIds.length).length, ?_⟩
  simp only [runSingle, hout]
  change Except.ok [batchResult tokenizer _ _ row] = _
  rw [batchResult, htext]
  rfl

theorem runPadded_eq (h : RowIndependent tokenizer generate lm special) {first : Request K}
    {rest : List (Request K)} (hvalid : ∀ req ∈ first :: rest, req.Valid) :
    ∃ results, runPadded tokenizer generate first rest = .ok results ∧
      List.Forall₂ (fun req result =>
        result.text = answer tokenizer lm (req.inBatch (first :: rest)) ∧
          result.promptTokens = (tokenizer.encode req.prompt).inputIds.length)
        (first :: rest) results := by
  let encode := fun req : Request K => tokenizer.encode req.prompt
  let encodings := (first :: rest).map encode
  let maxLen := longest encodings
  let ids := fun enc : Encoding =>
    assignPrefix (List.replicate maxLen tokenizer.padId) enc.inputIds
  let mask := fun enc : Encoding =>
    assignPrefix (List.replicate maxLen 0) (List.replicate enc.inputIds.length 1)
  let args : GenerateArgs K := paddedArgs tokenizer first rest
  have hinputs : args.inputIds = encodings.map ids := rfl
  have hmasks : args.attentionMask = encodings.map mask := rfl
  have hids : ∀ enc ∈ encodings, (ids enc).length = maxLen := by
    intro enc henc
    rw [length_assignPrefix] <;> simp [maxLen, length_le_longest henc]
  have hmask : ∀ enc ∈ encodings, (mask enc).length = maxLen := by
    intro enc henc
    rw [length_assignPrefix] <;> simp [maxLen, length_le_longest henc]
  have hfirst := hvalid first List.mem_cons_self
  have hargs : args.Valid := by
    refine ⟨by simp [hinputs, hmasks], ⟨maxLen, ?_, ?_⟩, minMaxTokens_pos fun req hreq =>
      (hvalid req hreq).maxNewTokens, hfirst.temperature, hfirst.topP⟩
    · simpa [hinputs] using hids
    · simpa [hmasks] using hmask
  obtain ⟨out, hout, hrows⟩ := h.rows args hargs
  have hzip : args.inputIds.zip args.attentionMask =
      encodings.map fun enc => (ids enc, mask enc) := by
    rw [hinputs, hmasks]
    exact List.zip_map'
  rw [hzip, List.forall₂_map_left_iff] at hrows
  refine ⟨List.zipWith (batchResult tokenizer maxLen) encodings out, ?_, ?_⟩
  · have htrim : trimRows tokenizer maxLen out encodings 0 = _ := trimRows_eq hrows []
    change (generate args >>= fun out => trimRows tokenizer maxLen out encodings 0) = _
    rw [hout]
    exact htrim
  · rw [List.zipWith_map_left]
    refine forall₂_zipWith (List.forall₂_map_left_iff.mp hrows) fun req hreq row hrow => ?_
    have htext := h.decode_row hrow h.padSpecial
    rw [hids _ (List.mem_map_of_mem hreq), unmasked_assignPrefix] at htext
    exact ⟨htext, rfl⟩

theorem Request.Valid.inBatch {batch : List (Request K)} (hvalid : ∀ req ∈ batch, req.Valid)
    (hne : batch ≠ []) (req : Request K) : (req.inBatch batch).Valid := by
  cases batch with
  | nil => exact absurd rfl hne
  | cons first rest =>
    have hfirst := hvalid first List.mem_cons_self
    exact ⟨minMaxTokens_pos fun r hr => (hvalid r hr).maxNewTokens, hfirst.temperature, hfirst.topP⟩

omit [Zero K] [One K] [LE K] [LT K] in
/-- The requests that a batch leaves as they are. -/
theorem Request.inBatch_eq_self_iff {first req : Request K} {rest : List (Request K)} :
    req.inBatch (first :: rest) = req ↔ req.maxNewTokens = minMaxTokens first rest ∧
      req.temperature = first.temperature ∧ req.topP = first.topP := by
  cases req
  simp only [Request.inBatch, Request.mk.injEq, true_and, and_true]
  exact ⟨fun ⟨hn, ht, hp⟩ => ⟨hn.symm, ht.symm, hp.symm⟩,
    fun ⟨hn, ht, hp⟩ => ⟨hn.symm, ht.symm, hp.symm⟩⟩

/-- In a batch every request gets what the fast path gives it under the batch's parameters. -/
theorem batching_transparent (h : RowIndependent tokenizer generate lm special)
    {batch : List (Request K)} (hlen : 2 ≤ batch.length) (hvalid : ∀ req ∈ batch, req.Valid) :
    ∃ results, runBatch tokenizer generate batch = .ok results ∧
      List.Forall₂ (fun req result => ∃ single,
        runBatch tokenizer generate [req.inBatch batch] = .ok [single] ∧
          result.text = single.text ∧ result.promptTokens = single.promptTokens) batch results := by
  match batch, hlen with
  | first :: second :: rest, _ =>
    obtain ⟨results, hrun, hresults⟩ := runPadded_eq h hvalid
    refine ⟨results, hrun, hresults.imp fun req result hresult => ?_⟩
    obtain ⟨htext, htokens⟩ := hresult
    obtain ⟨n, hsingle⟩ := runSingle_eq h (Request.Valid.inBatch hvalid (List.cons_ne_nil _ _) req)
    exact ⟨_, hsingle, htext, htokens⟩

end Paths

/-! ### A model to run -/

/-- Generates row by row, and pads to the longest. -/
def LanguageModel.generate (lm : LanguageModel K) : Generate K := fun args =>
  let rows := (args.inputIds.zip args.attentionMask).map fun row =>
    row.1 ++ lm.generated (unmasked row.1 row.2) args.temperature args.topP args.maxNewTokens
  let width := (rows.map List.length).foldl max 0
  .ok (rows.map fun row =>
    row ++ List.replicate (width - row.length) (args.padTokenId.getD lm.defaultPad))

/-- A token for each character; the token 0 ends the text and pads. -/
def charTokenizer : Tokenizer where
  encode prompt :=
    ⟨prompt.toList.map Char.toNat, List.replicate (prompt.toList.map Char.toNat).length 1⟩
  decode ids skip := String.ofList ((ids.filter fun t => !(skip && t == 0)).map Char.ofNat)
  padTokenId := none
  eosTokenId := 0

theorem rowIndependent_generate [Zero K] [One K] [LE K] [LT K] {lm : LanguageModel K}
    (hpad : lm.defaultPad = 0) :
    RowIndependent charTokenizer lm.generate lm fun t => t == 0 := by
  refine ⟨fun args hargs => ⟨_, rfl, ?_⟩, fun _ => rfl, fun ids => ?_, rfl, by simp [hpad]⟩
  · rw [List.forall₂_map_right_iff, List.forall₂_map_right_iff, List.forall₂_same]
    exact fun row _ => ⟨_, rfl⟩
  · simp [charTokenizer, List.filter_filter]

/-- Writes `x` after every prompt, without end. -/
def writesX : LanguageModel ℚ where
  continuation _ _ _ _ := 'x'.toNat
  isEos t := t == 0
  defaultPad := 0

/-- Two prompts of different lengths. -/
theorem batching_transparent_padded :
    let batch : List (Request ℚ) :=
      [⟨0, "hello", 3, 1, 1, 0, 0, "a"⟩, ⟨1, "hi", 2, 1, 1, 0, 0, "b"⟩]
    ∃ results, runBatch charTokenizer writesX.generate batch = .ok results ∧
      results.map BatchResult.text = ["xx", "xx"] ∧
      List.Forall₂ (fun req result => ∃ single,
        runBatch charTokenizer writesX.generate [req.inBatch batch] = .ok [single] ∧
          result.text = single.text ∧ result.promptTokens = single.promptTokens) batch results := by
  intro batch
  have hvalid : ∀ req ∈ batch, req.Valid := by
    simp only [batch, List.forall_mem_cons]
    exact ⟨⟨by decide, by norm_num, by norm_num⟩, ⟨by decide, by norm_num, by norm_num⟩, by simp⟩
  have hrun : runBatch charTokenizer writesX.generate batch = .ok [⟨"xx", 5, 2⟩, ⟨"xx", 2, 2⟩] := rfl
  obtain ⟨results, hr, hall⟩ := batching_transparent
    (rowIndependent_generate rfl : RowIndependent charTokenizer writesX.generate writesX _)
    (by decide) hvalid
  obtain rfl := Except.ok.inj (hrun.symm.trans hr)
  exact ⟨_, hrun, rfl, hall⟩

/-- A request for two tokens beside a request for one. -/
theorem batching_cuts_short :
    RowIndependent charTokenizer writesX.generate writesX (fun t => t == 0) ∧
    ∃ first second : Request ℚ, first.Valid ∧ second.Valid ∧
      runBatch charTokenizer writesX.generate [first, second] = .ok [⟨"x", 5, 1⟩, ⟨"x", 2, 1⟩] ∧
      runBatch charTokenizer writesX.generate [first] = .ok [⟨"xx", 5, 2⟩] := by
  refine ⟨rowIndependent_generate rfl, ⟨0, "hello", 2, 1, 1, 0, 0, "a"⟩,
    ⟨1, "hi", 1, 1, 1, 0, 0, "b"⟩, ?_, ?_, rfl, rfl⟩
  · exact ⟨by decide, by norm_num, by norm_num⟩
  · exact ⟨by decide, by norm_num, by norm_num⟩

end InferenceCluster
