import InferenceCluster.Spec.LanguageModel

/-! What `_run_batch` does to its tensors, and that what it returns fits the batch. -/

namespace InferenceCluster

variable {K : Type}

/-! ### Padding -/

theorem unmasked_append {a c : List ℕ} (h : a.length = c.length) (b d : List ℕ) :
    unmasked (a ++ b) (c ++ d) = unmasked a c ++ unmasked b d := by
  simp [unmasked, List.zip_append h]

theorem unmasked_ones (ids : List ℕ) : unmasked ids (List.replicate ids.length 1) = ids := by
  induction ids with
  | nil => rfl
  | cons t ids ih =>
    change t :: unmasked ids (List.replicate ids.length 1) = t :: ids
    rw [ih]

theorem unmasked_zeros (n pad : ℕ) : unmasked (List.replicate n pad) (List.replicate n 0) = [] := by
  simp [unmasked]

/-- Behind the mask stands the prompt itself. -/
theorem unmasked_assignPrefix (maxLen pad : ℕ) (ids : List ℕ) :
    unmasked (assignPrefix (List.replicate maxLen pad) ids)
      (assignPrefix (List.replicate maxLen 0) (List.replicate ids.length 1)) = ids := by
  simp only [assignPrefix, List.length_replicate, List.drop_replicate]
  rw [unmasked_append (by simp), unmasked_ones, unmasked_zeros, List.append_nil]

theorem length_assignPrefix {row ids : List ℕ} (h : ids.length ≤ row.length) :
    (assignPrefix row ids).length = row.length := by
  rw [assignPrefix, List.length_append, List.length_drop]
  omega

theorem le_foldl_max {β : Type} (f : β → ℕ) (l : List β) (n : ℕ) :
    n ≤ l.foldl (fun n x => max n (f x)) n ∧ ∀ x ∈ l, f x ≤ l.foldl (fun n x => max n (f x)) n := by
  induction l generalizing n with
  | nil => simp
  | cons x l ih =>
    obtain ⟨hle, hall⟩ := ih (max n (f x))
    refine ⟨(le_max_left _ _).trans hle, fun y hy => ?_⟩
    rcases List.mem_cons.mp hy with rfl | hy
    · exact (le_max_right _ _).trans hle
    · exact hall y hy

theorem foldl_max_le {β : Type} {f : β → ℕ} {l : List β} {n m : ℕ} (hn : n ≤ m)
    (h : ∀ x ∈ l, f x ≤ m) : l.foldl (fun n x => max n (f x)) n ≤ m := by
  induction l generalizing n with
  | nil => exact hn
  | cons x l ih =>
    apply ih (max_le hn (h x List.mem_cons_self))
    exact fun y hy => h y (List.mem_cons_of_mem _ hy)

theorem length_le_longest {encodings : List Encoding} {enc : Encoding} (h : enc ∈ encodings) :
    enc.inputIds.length ≤ longest encodings :=
  (le_foldl_max (fun enc => enc.inputIds.length) encodings 0).2 enc h

/-! ### The loop over the output -/

/-- The loop takes the rows one by one. -/
theorem trimRows_eq {tokenizer : Tokenizer} {maxLen : ℕ} {P : Encoding → List ℕ → Prop}
    {encodings : List Encoding} {out : List (List ℕ)} (h : List.Forall₂ P encodings out)
    (before : List (List ℕ)) :
    trimRows tokenizer maxLen (before ++ out) encodings before.length =
      .ok (List.zipWith (batchResult tokenizer maxLen) encodings out) := by
  induction h generalizing before with
  | nil => rfl
  | @cons enc row encodings out _ _ ih =>
    have hrow : rowAt (before ++ row :: out) before.length = .ok row := by
      simp [rowAt]
    have hrest := ih (before ++ [row])
    rw [List.append_assoc, List.singleton_append, List.length_append, List.length_singleton]
      at hrest
    simp only [trimRows, hrow, hrest]
    rfl

theorem exists_of_bind_eq_ok {α β : Type} {x : Except PyException α} {f : α → Except PyException β}
    {b : β} (h : (x >>= f) = .ok b) : ∃ a, x = .ok a ∧ f a = .ok b := by
  cases x with
  | error e => cases h
  | ok a => exact ⟨a, rfl, h⟩

theorem trimRows_length {tokenizer : Tokenizer} {maxLen i : ℕ} {out : List (List ℕ)}
    {encodings : List Encoding} {results : List BatchResult}
    (h : trimRows tokenizer maxLen out encodings i = .ok results) :
    results.length = encodings.length := by
  induction encodings generalizing i results with
  | nil =>
    obtain rfl := Except.ok.inj h
    rfl
  | cons enc encodings ih =>
    obtain ⟨row, -, h⟩ := exists_of_bind_eq_ok h
    obtain ⟨rest, hrest, h⟩ := exists_of_bind_eq_ok h
    obtain rfl := Except.ok.inj h
    rw [List.length_cons, List.length_cons, ih hrest]

/-- With any model and tokenizer: one result a request, or an exception. -/
theorem runBatch_length {tokenizer : Tokenizer} {generate : Generate K}
    {batch : List (Request K)} {results : List BatchResult}
    (h : runBatch tokenizer generate batch = .ok results) : results.length = batch.length := by
  match batch with
  | [] => cases h
  | [req] =>
    obtain ⟨out, -, h⟩ := exists_of_bind_eq_ok h
    obtain ⟨row, -, h⟩ := exists_of_bind_eq_ok h
    obtain rfl := Except.ok.inj h
    rfl
  | first :: second :: rest =>
    obtain ⟨out, -, h⟩ := exists_of_bind_eq_ok h
    rw [trimRows_length h, List.length_map]

/-- The model run of the scheduler's worker never breaks its terms of service. -/
theorem allowed_runBatch [DecidableEq K] {tokenizer : Tokenizer} {generate : Generate K}
    {s : SchedulerSystem K} {batch : List (Request K)} (hw : s.worker = .runBatch batch) :
    s.allowed (.worker (.runBatch (runBatch tokenizer generate batch))) = true := by
  cases hrun : runBatch tokenizer generate batch with
  | error e => rfl
  | ok results =>
    simp only [SchedulerSystem.allowed, hw]
    exact decide_eq_true (runBatch_length hrun)

/-! ### The shared parameters -/

theorem minMaxTokens_pos {first : Request K} {rest : List (Request K)}
    (h : ∀ req ∈ first :: rest, 0 < req.maxNewTokens) : 0 < minMaxTokens first rest := by
  suffices hfold : ∀ n, 0 < n → 0 < rest.foldl (fun n req => min n req.maxNewTokens) n from
    hfold _ (h first List.mem_cons_self)
  have hrest := fun req hreq => h req (List.mem_cons_of_mem _ hreq)
  clear h
  induction rest with
  | nil => exact fun n hn => hn
  | cons req rest ih =>
    intro n hn
    have hreq := hrest req List.mem_cons_self
    exact ih (fun r hr => hrest r (List.mem_cons_of_mem _ hr)) _ (lt_min hn hreq)

end InferenceCluster
