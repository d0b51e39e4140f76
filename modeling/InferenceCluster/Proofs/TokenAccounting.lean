import InferenceCluster.Proofs.Batching
import InferenceCluster.Sanity.Counters
import InferenceCluster.Spec.Generation
import Mathlib.Algebra.BigOperators.Group.List.Basic

/-! Token accounting. The batch path takes everything after the padded prompts for generated, so
each request of a batch is charged the tokens of the longest one. -/

namespace InferenceCluster

variable {K : Type}

/-- The rows of a model run all stop at the same length. -/
def Level (rows : List (List ℕ)) : Prop :=
  ∀ row ∈ rows, ∀ row' ∈ rows, row.length = row'.length

theorem length_le_maxLength {rows : List (List ℕ)} {row : List ℕ} (h : row ∈ rows) :
    row.length ≤ maxLength rows :=
  (le_foldl_max List.length rows 0).2 row h

theorem replicate_maxLength_iff {rows : List (List ℕ)} :
    List.replicate rows.length (maxLength rows) = rows.map List.length ↔ Level rows := by
  rw [eq_comm, List.eq_replicate_iff, List.length_map]
  simp only [List.forall_mem_map, true_and]
  constructor
  · exact fun h row hr row' hr' => (h row hr).trans (h row' hr').symm
  · intro h row hr
    apply (length_le_maxLength hr).antisymm
    exact foldl_max_le (Nat.zero_le _) fun row' hr' => (h row' hr' row hr).le

/-! ### One model run -/

section Run

variable {tokenizer : Tokenizer} {pad defaultPad width maxLen : ℕ}

theorem length_generated {ids row : List ℕ} (hids : ids.length = maxLen)
    (hrow : row.length ≤ width) : ((outputRow pad width ids row).drop maxLen).length = width := by
  rw [List.length_drop, outputRow, List.length_append, List.length_append, List.length_replicate]
  omega

theorem length_padded {encodings : List Encoding} {enc : Encoding} (h : enc ∈ encodings)
    (pad : ℕ) : (assignPrefix (List.replicate (longest encodings) pad) enc.inputIds).length =
      longest encodings := by
  rw [length_assignPrefix] <;> simp [length_le_longest h]

variable (pad) in
/-- What the batch path cuts off each row of the output has the width of the longest one. -/
theorem forall₂_outputRow {inputs : Encoding → List ℕ} {encodings : List Encoding}
    {rows : List (List ℕ)} (hlen : rows.length = encodings.length)
    (hin : ∀ enc ∈ encodings, (inputs enc).length = maxLen)
    (hrows : ∀ row ∈ rows, row.length ≤ width) :
    List.Forall₂ (fun _ out => (out.drop maxLen).length = width) encodings
      (List.zipWith (outputRow pad width) (encodings.map inputs) rows) := by
  induction encodings generalizing rows with
  | nil => exact .nil
  | cons enc encodings ih =>
    obtain ⟨row, rows, rfl⟩ := List.exists_cons_of_length_eq_add_one hlen
    refine .cons (length_generated (hin enc List.mem_cons_self) (hrows row List.mem_cons_self)) ?_
    exact ih (Nat.succ.inj hlen) (fun e he => hin e (List.mem_cons_of_mem _ he))
      fun r hr => hrows r (List.mem_cons_of_mem _ hr)

theorem map_generatedTokens {encodings : List Encoding} {out : List (List ℕ)}
    (h : List.Forall₂ (fun _ out => (out.drop maxLen).length = width) encodings out) :
    (List.zipWith (batchResult tokenizer maxLen) encodings out).map BatchResult.generatedTokens =
      List.replicate encodings.length width := by
  induction h with
  | nil => rfl
  | cons hrow _ ih =>
    rw [List.zipWith_cons_cons, List.map_cons, ih, List.length_cons, List.replicate_succ, ← hrow]
    rfl

/-- Every request is reported with the tokens of the longest row. -/
theorem runBatch_reports (tokenizer : Tokenizer) (defaultPad : ℕ) {batch : List (Request K)}
    {rows : List (List ℕ)} (hne : batch ≠ []) (hlen : rows.length = batch.length) :
    ∃ results, runBatch tokenizer (Generation.generate (.ok rows) defaultPad) batch = .ok results ∧
      results.map BatchResult.generatedTokens = List.replicate rows.length (maxLength rows) := by
  match batch with
  | [] => exact absurd rfl hne
  | [req] =>
    obtain ⟨row, rfl⟩ := List.length_eq_one_iff.mp hlen
    refine ⟨_, rfl, ?_⟩
    have hwidth : ((outputRow defaultPad (maxLength [row]) (tokenizer.encode req.prompt).inputIds
        row).drop (tokenizer.encode req.prompt).inputIds.length).length = maxLength [row] :=
      length_generated rfl (length_le_maxLength List.mem_cons_self)
    exact congrArg (fun n => [n]) hwidth
  | first :: second :: rest =>
    have hlen' : rows.length =
        ((first :: second :: rest).map fun req => tokenizer.encode req.prompt).length := by
      rw [hlen, List.length_map]
    have hall := forall₂_outputRow tokenizer.padId hlen'
      (fun enc he => length_padded he tokenizer.padId) fun row hr => length_le_maxLength hr
    refine ⟨_, trimRows_eq hall [], ?_⟩
    rw [map_generatedTokens hall, hlen']

theorem runBatch_error (tokenizer : Tokenizer) (defaultPad : ℕ) (batch : List (Request K))
    (e : PyException) :
    ∃ e', runBatch tokenizer (Generation.generate (.error e) defaultPad) batch = .error e' := by
  match batch with
  | [] | [req] | first :: second :: rest => exact ⟨_, rfl⟩

end Run

/-! ### The tokens of a batch -/

theorem Futures.generated_of_succeeded {fs : Futures} {batch : List (Request K)}
    {rows : List (List ℕ)} (hlen : rows.length = batch.length)
    (h : ∀ req ∈ batch, fs.succeeded req.ref = true) :
    fs.generated batch rows = (rows.map List.length).sum := by
  induction batch generalizing rows with
  | nil =>
    obtain rfl := List.length_eq_zero_iff.mp hlen
    rfl
  | cons req batch ih =>
    obtain ⟨row, rows, rfl⟩ := List.exists_cons_of_length_eq_add_one hlen
    have hrest := ih (Nat.succ.inj hlen) fun r hr => h r (List.mem_cons_of_mem _ hr)
    rw [generated] at hrest ⊢
    rw [List.zip_cons_cons, List.map_cons, List.sum_cons, hrest, if_pos (h req List.mem_cons_self),
      List.map_cons, List.sum_cons]

theorem Futures.generated_of_failed {fs : Futures} {batch : List (Request K)}
    (h : ∀ req ∈ batch, fs.succeeded req.ref = false) (rows : List (List ℕ)) :
    fs.generated batch rows = 0 := by
  rw [generated]
  apply List.sum_eq_zero
  intro n hn
  obtain ⟨p, hp, rfl⟩ := List.mem_map.mp hn
  rw [h p.1 (List.of_mem_zip hp).1]
  rfl

/-- What a counted batch reports is what was generated for it, if this is so row by row. -/
theorem Served.reported_eq_generated {fs : Futures} {b : Served K} (hfits : b.Fits)
    (hdel : fs.Delivered b.due) {rows : List (List ℕ)}
    (h : ∀ results, b.2 = .ok results →
      results.map BatchResult.generatedTokens = rows.map List.length) :
    b.reported = fs.generated b.1 rows := by
  have hfuture : ∀ req ∈ b.1, ∃ o, fs req.ref = some (.finished o) ∧ (req, o) ∈ b.due := by
    intro req hr
    obtain ⟨o, ho⟩ := hfits.exists_due hr
    exact ⟨o, hdel _ ho, ho⟩
  rcases b with ⟨batch, e | results⟩
  · rw [Futures.generated_of_failed, reported]
    intro req hr
    obtain ⟨o, hf, ho⟩ := hfuture req hr
    obtain ⟨req', -, heq⟩ := List.mem_map.mp ho
    obtain rfl := (Prod.mk.inj heq).2
    rw [Futures.succeeded, hf]
  · have hrows := h results rfl
    have hlen : rows.length = batch.length := by
      rw [← hfits.length results rfl, ← List.length_map List.length, ← hrows, List.length_map]
    rw [Futures.generated_of_succeeded hlen, reported, hrows]
    intro req hr
    obtain ⟨o, hf, ho⟩ := hfuture req hr
    obtain ⟨p, -, heq⟩ := List.mem_map.mp ho
    obtain rfl := (Prod.mk.inj heq).2
    rw [Futures.succeeded, hf]

/-! ### Runs -/

namespace SchedulerSystem

/-- The model runs so far are those of `_run_batch` with what the model generated. -/
def Transcript (tokenizer : Tokenizer) (defaultPad : ℕ) (model : ℕ → Generation)
    (s : SchedulerSystem K) : Prop :=
  ∀ k batch r, s.history.served[k]? = some (batch, r) →
    r = runBatch tokenizer ((model k).generate defaultPad) batch ∧ (model k).hasRows batch.length

variable {tokenizer : Tokenizer} {defaultPad : ℕ} {model : ℕ → Generation} {s s' : SchedulerSystem K}

theorem Transcript.step [Field K] [LinearOrder K] (h : s.Transcript tokenizer defaultPad model)
    {e : SchedulerEvent K} (hruns : s.runs tokenizer defaultPad model e = true)
    (hs : s.step e = some s') : s'.Transcript tokenizer defaultPad model := by
  intro k batch r hk
  cases countStepped hs with
  | same hserved => exact h k batch r (hserved ▸ hk)
  | counted _ hserved => exact h k batch r (hserved ▸ hk)
  | ran hw he hserved =>
    rw [hserved] at hk
    rcases Nat.lt_trichotomy k s.history.served.length with hlt | rfl | hgt
    · rw [List.getElem?_append_left hlt] at hk
      exact h k batch r hk
    · rw [List.getElem?_concat_length] at hk
      obtain ⟨rfl, rfl⟩ := Prod.mk.inj (Option.some.inj hk)
      rw [he] at hruns
      simpa only [runs, hw, decide_eq_true_eq] using hruns
    · rw [List.getElem?_eq_none (by simpa using Nat.succ_le_of_lt hgt)] at hk
      cases hk

/-- A model run has raised, or it reports the longest row for each request. -/
theorem Transcript.cases (h : s.Transcript tokenizer defaultPad model) (hd : s.Deliveries) {k : ℕ}
    {batch : List (Request K)} {r : Except PyException (List BatchResult)}
    (hk : s.history.served[k]? = some (batch, r)) :
    ((model k).rows = [] ∧ ∃ e, r = .error e) ∨
      ∃ results, r = .ok results ∧ results.map BatchResult.generatedTokens =
        List.replicate (model k).rows.length (maxLength (model k).rows) := by
  have hfits := hd.fits _ (List.mem_of_getElem? hk)
  obtain ⟨rfl, hrows⟩ := h k batch r hk
  rcases hm : model k with e | rows
  · exact .inl ⟨rfl, runBatch_error tokenizer defaultPad batch e⟩
  · exact .inr (runBatch_reports tokenizer defaultPad hfits.nonempty (hrows rows hm))

theorem Transcript.reported (h : s.Transcript tokenizer defaultPad model) (hd : s.Deliveries)
    {k : ℕ} {batch : List (Request K)} {results : List BatchResult}
    (hk : s.history.served[k]? = some (batch, .ok results)) :
    results.map BatchResult.generatedTokens =
      List.replicate (model k).rows.length (maxLength (model k).rows) := by
  rcases h.cases hd hk with ⟨-, e, he⟩ | ⟨results', hr, hreports⟩
  · cases he
  · obtain rfl := Except.ok.inj hr
    exact hreports

theorem Transcript.level_of_reported (h : s.Transcript tokenizer defaultPad model)
    (hd : s.Deliveries)
    (hexact : ∀ k batch results, s.history.served[k]? = some (batch, .ok results) →
      results.map BatchResult.generatedTokens = (model k).rows.map List.length)
    {k : ℕ} (hk : k < s.history.served.length) : Level (model k).rows := by
  obtain ⟨⟨batch, r⟩, hb⟩ : ∃ b, s.history.served[k]? = some b := ⟨_, List.getElem?_eq_getElem hk⟩
  rcases h.cases hd hb with ⟨hrows, -⟩ | ⟨results, rfl, hreports⟩
  · rw [hrows]
    exact fun row hrow => absurd hrow List.not_mem_nil
  · rw [← replicate_maxLength_iff, ← hreports, hexact k batch results hb]

/-- The total is what was generated, if the reports are exact. -/
theorem Counted.total_generated (h : s.Counted) (hd : s.Deliveries)
    (hexact : ∀ k batch results, s.history.served[k]? = some (batch, .ok results) →
      results.map BatchResult.generatedTokens = (model k).rows.map List.length) :
    s.scheduler.totalTokensGenerated =
      (s.history.completed.zipIdx.map fun b => s.futures.generated b.1 (model b.2).rows).sum := by
  rw [h.total]
  congr 1
  apply List.ext_getElem?
  intro k
  rw [List.getElem?_map, List.getElem?_map, List.getElem?_zipIdx, h.completed, List.getElem?_map]
  rcases hb : s.counted[k]? with _ | b
  · rfl
  · have hserved : s.history.served[k]? = some b := by
      rw [counted, List.getElem?_take] at hb
      split_ifs at hb
      exact hb
    have hfits := hd.fits b (List.mem_of_getElem? hserved)
    have hreported := Served.reported_eq_generated hfits (h.delivered b (List.mem_of_getElem? hb))
      fun results hr => hexact k b.1 results (by rw [hserved, ← hr])
    simp [hreported]

variable [Field K] [LinearOrder K]

/-- Whatever the interleaving, and whatever the model generates or raises: the counts are exact
if and only if the rows of each model run have stopped at one length. -/
theorem token_accounting_iff {maxBatchSize : ℕ} {rate burst now : K}
    {events : List (SchedulerEvent K)}
    (h : (machine maxBatchSize rate burst now).Run events s)
    (hok : (machine maxBatchSize rate burst now).Meets
      (fun s e => s.admits e && s.runs tokenizer defaultPad model e) events) :
    s.ExactCounts model ↔ ∀ k < s.history.served.length, Level (model k).rows := by
  obtain ⟨hd, hcounted⟩ := counted_of_run h fun js e hp t ht =>
    (Bool.and_eq_true_iff.mp (hok js e hp t ht)).1
  have htranscript : s.Transcript tokenizer defaultPad model :=
    Machine.Run.invariant_of_meets (I := fun _ s => s.Transcript tokenizer defaultPad model)
      (fun k batch r hk => by simp [machine] at hk) (fun _ _ _ _ _ hI hok hs =>
        hI.step (Bool.and_eq_true_iff.mp hok).2 hs) h hok
  constructor
  · exact fun hexact k hk => htranscript.level_of_reported hd hexact.reported hk
  · intro hlevel
    have hreported : ∀ k batch results, s.history.served[k]? = some (batch, .ok results) →
        results.map BatchResult.generatedTokens = (model k).rows.map List.length := by
      intro k batch results hk
      rw [htranscript.reported hd hk, replicate_maxLength_iff]
      exact hlevel k (List.getElem?_eq_some_iff.mp hk).1
    exact ⟨hreported, hcounted.total_generated hd hreported⟩

/-- Two requests for at most two tokens each, served in one batch. -/
def servePair (g : Generation) : List (SchedulerEvent ℚ) :=
  let a : Request ℚ := ⟨1, "hello", 2, 1, 1, 0, 0, "a"⟩
  let b : Request ℚ := ⟨2, "hi", 2, 1, 1, 0, 1, "b"⟩
  [.worker .start, .submit 0 a, .push a, .submit 0 b, .push b, .worker .checkRunning,
    .worker (.popFirst false), .worker (.checkFull false), .worker (.popMore false),
    .worker (.checkFull false),
    .worker (.runBatch (runBatch charTokenizer (g.generate 0) [a, b])),
    .worker .resolve, .worker .resolve, .worker .resolve, .worker (.account 1)]

/-- Both rows take two tokens, the second of the one being the end of the text. -/
theorem token_accounting_iff_level :
    let g : Generation := .ok [[120, 0], [121, 122]]
    ∃ s, (machine 2 0 2 0).Run (servePair g) s ∧ s.scheduler.totalTokensGenerated = 4 ∧
      s.ExactCounts fun _ => g := by
  intro g
  have hexec : ((machine 2 0 2 0).exec (machine 2 0 2 0).init (servePair g)).map
      (fun s => s.scheduler.totalTokensGenerated) = some 4 := by
    decide +kernel
  obtain ⟨s, hs, htotal⟩ := Option.map_eq_some_iff.mp hexec
  have hr := (Machine.run_iff_exec _).mpr hs
  have hok : (machine (2 : ℕ) (0 : ℚ) 2 0).Meets
      (fun s e => s.admits e && s.runs charTokenizer 0 (fun _ => g) e) (servePair g) :=
    Machine.meets_of_checks _ (by decide +kernel)
  refine ⟨s, hr, htotal, (token_accounting_iff hr hok).mpr fun k _ => ?_⟩
  simp [Level, g, Generation.rows]

/-- The first row ends its text at once, the second takes two tokens: two and two are reported,
and four counted. -/
theorem pads_counted :
    let g : Generation := .ok [[0], [121, 122]]
    ∃ s, (machine 2 0 2 0).Run (servePair g) s ∧
      (machine 2 0 2 0).Meets
        (fun s e => s.admits e && s.runs charTokenizer 0 (fun _ => g) e) (servePair g) ∧
      s.scheduler.totalTokensGenerated = 4 ∧ ¬s.ExactCounts fun _ => g := by
  intro g
  have hexec : ((machine 2 0 2 0).exec (machine 2 0 2 0).init (servePair g)).map
      (fun s => (s.scheduler.totalTokensGenerated,
        (s.history.completed.zipIdx.map fun b => s.futures.generated b.1 g.rows).sum)) =
      some (4, 3) := by
    decide +kernel
  obtain ⟨s, hs, hend⟩ := Option.map_eq_some_iff.mp hexec
  obtain ⟨htotal, hgenerated⟩ := Prod.mk.inj hend
  refine ⟨s, (Machine.run_iff_exec _).mpr hs, Machine.meets_of_checks _ (by decide +kernel),
    htotal, fun hexact => ?_⟩
  have h := hexact.total
  rw [htotal, hgenerated] at h
  exact absurd h (by decide)

end SchedulerSystem
end InferenceCluster
