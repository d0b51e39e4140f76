import InferenceCluster.Spec.PriorityQueue
import Mathlib.Data.Prod.Lex
import Mathlib.Data.Int.Cast.Lemmas

/-! The queue hands out the least requests first, in the order of arrival where priorities
agree, and a batch is what as many single calls would hand out. -/

namespace InferenceCluster

variable {K : Type} [LinearOrder K]

theorem Request.lt_iff (r other : Request K) :
    r.lt other = true ↔
      toLex (r.priority, r.arrivalTime) < toLex (other.priority, other.arrivalTime) := by
  rw [Prod.Lex.toLex_lt_toLex, Request.lt]
  split_ifs with h
  · simp [h]
  · simp [h]

theorem Request.strictWeak : Heapq.StrictWeak (Request.lt (K := K)) := by
  refine ⟨fun a b h => ?_, fun a b c hab hbc => ?_⟩
  · rw [← Bool.not_eq_true, Request.lt_iff, not_lt]
    exact ((Request.lt_iff a b).mp h).le
  · rw [← Bool.not_eq_true, Request.lt_iff, not_lt] at hab hbc ⊢
    exact hab.trans hbc

namespace PriorityQueue

def Ordered (q : PriorityQueue K) : Prop := Heapq.Ordered Request.lt q.heap

theorem ordered_push {q : PriorityQueue K} (o : q.Ordered) (request : Request K) :
    (q.push request).Ordered := Heapq.heappush_ordered Request.strictWeak o request

/-- Each request handed out is the least of those handed out later and those kept. -/
structure Least (out : List (Request K)) (q q' : PriorityQueue K) : Prop where
  perm : q.heap.Perm (out ++ q'.heap)
  inOrder : out.Pairwise fun r later => later.lt r = false
  kept : ∀ r ∈ out, ∀ left ∈ q'.heap, left.lt r = false

theorem Least.nil (q : PriorityQueue K) : Least [] q q :=
  ⟨.rfl, List.Pairwise.nil, fun _ h => absurd h List.not_mem_nil⟩

theorem Least.cons {q q' q'' : PriorityQueue K} {request : Request K} {out : List (Request K)}
    (hp : Heapq.heappop Request.lt q.heap = some (request, q'.heap)) (o : q.Ordered)
    (h : Least out q' q'') : Least (request :: out) q q'' := by
  have hperm := Heapq.heappop_perm _ hp
  have hmin := (Heapq.heappop_ordered Request.strictWeak o hp).2
  have hrest : ∀ r ∈ out ++ q''.heap, r.lt request = false := fun r hr =>
    hmin r (hperm.mem_iff.mpr (List.mem_cons_of_mem _ (h.perm.mem_iff.mpr hr)))
  refine ⟨hperm.trans (h.perm.cons request), List.pairwise_cons.mpr ⟨?_, h.inOrder⟩, ?_⟩
  · exact fun r hr => hrest r (List.mem_append_left _ hr)
  · intro r hr left hl
    rcases List.mem_cons.mp hr with rfl | hr
    · exact hrest left (List.mem_append_right _ hl)
    · exact h.kept r hr left hl

/-- A waiting request is handed out before those above it. -/
theorem Least.before {q q' : PriorityQueue K} {out a b : List (Request K)} (h : Least out q q')
    {first second : Request K} (hf : first ∈ q.heap) (hlt : first.lt second = true)
    (hout : out = a ++ second :: b) : first ∈ a := by
  subst hout
  have hsecond := List.pairwise_cons.mp (List.pairwise_append.mp h.inOrder).2.1
  have hmem := h.perm.mem_iff.mp hf
  simp only [List.mem_append, List.mem_cons] at hmem
  rcases hmem with (ha | rfl | hb) | hkept
  · exact ha
  · rw [Request.strictWeak.irrefl] at hlt; cases hlt
  · rw [hsecond.1 _ hb] at hlt; cases hlt
  · rw [h.kept second (by simp) _ hkept] at hlt; cases hlt

/-! ### Batches and single calls -/

theorem pop_eq_some {q q' : PriorityQueue K} {expired : Bool} {request : Request K} :
    q.pop expired = some (some request, q') ↔
      Heapq.heappop Request.lt q.heap = some (request, q'.heap) := by
  unfold pop
  cases hp : Heapq.heappop Request.lt q.heap with
  | none => cases expired <;> simp
  | some r =>
    obtain ⟨request', heap⟩ := r
    simp only [Option.some.injEq, Prod.mk.injEq]
    refine and_congr_right fun _ => ⟨?_, ?_⟩
    · rintro rfl; rfl
    · rintro rfl; rfl

theorem pops_least {n : ℕ} {q q' : PriorityQueue K} {out : List (Request K)} (o : q.Ordered)
    (h : pops n q = some (out, q')) : Least out q q' ∧ q'.Ordered := by
  induction n generalizing q out with
  | zero =>
    obtain ⟨rfl, rfl⟩ := Prod.mk.inj (Option.some.inj h)
    exact ⟨Least.nil q, o⟩
  | succ n ih =>
    simp only [pops] at h
    split at h
    · rename_i request q₁ hp
      rw [pop_eq_some] at hp
      obtain ⟨⟨out', q₂⟩, hrest, heq⟩ := Option.map_eq_some_iff.mp h
      obtain ⟨rfl, rfl⟩ := Prod.mk.inj heq
      obtain ⟨hl, ho⟩ := ih (Heapq.heappop_ordered Request.strictWeak o hp).1 hrest
      exact ⟨hl.cons hp o, ho⟩
    · cases h

theorem popBatchLoop_eq (maxSize : ℤ) (fuel : ℕ) (heap batch : List (Request K))
    (hf : heap.length ≤ fuel) :
    ∃ out q', pops (min (maxSize - batch.length).toNat heap.length) ⟨heap⟩ = some (out, q') ∧
      popBatchLoop maxSize fuel heap batch = (batch ++ out, q'.heap) := by
  induction fuel generalizing heap batch with
  | zero =>
    obtain rfl : heap = [] := List.length_eq_zero_iff.mp (Nat.le_zero.mp hf)
    exact ⟨[], ⟨[]⟩, by simp [pops], by simp [popBatchLoop]⟩
  | succ fuel ih =>
    simp only [popBatchLoop]
    cases hp : Heapq.heappop Request.lt heap with
    | none =>
      obtain rfl := (Heapq.heappop_eq_none _).mp hp
      exact ⟨[], ⟨[]⟩, by simp [pops], by simp⟩
    | some r =>
      obtain ⟨request, rest⟩ := r
      have hlen := (Heapq.heappop_perm _ hp).length_eq
      rw [List.length_cons] at hlen
      dsimp only
      split_ifs with hroom
      · obtain ⟨out, q', hpops, hloop⟩ := ih rest (batch ++ [request]) (by omega)
        rw [List.length_append, List.length_singleton, Nat.cast_add, Nat.cast_one] at hpops
        refine ⟨request :: out, q', ?_, by rw [hloop, List.append_assoc]; rfl⟩
        obtain ⟨n, hn⟩ : ∃ n, min (maxSize - batch.length).toNat heap.length = n + 1 :=
          ⟨min (maxSize - (batch.length + 1)).toNat rest.length, by omega⟩
        have hpop : (⟨heap⟩ : PriorityQueue K).pop false = some (some request, ⟨rest⟩) :=
          pop_eq_some.mpr hp
        rw [hn, pops, hpop]
        dsimp only
        rw [show n = min (maxSize - (batch.length + 1)).toNat rest.length by omega, hpops]
        rfl
      · refine ⟨[], ⟨heap⟩, ?_, by rw [List.append_nil]⟩
        rw [show (maxSize - (batch.length : ℤ)).toNat = 0 by omega, Nat.zero_min, pops]

/-- A batch of at most `maxSize` is what `min(max_size, size)` single calls hand out. -/
theorem popBatch_eq (q : PriorityQueue K) (maxSize : ℤ) :
    pops (min maxSize.toNat q.size) q = some (q.popBatch maxSize) := by
  obtain ⟨out, q', hpops, hloop⟩ :=
    popBatchLoop_eq maxSize q.heap.length q.heap [] (Nat.le_refl _)
  rw [List.length_nil, Nat.cast_zero, sub_zero] at hpops
  rw [popBatch, hloop]
  exact hpops

/-! ### One call -/

theorem serve_least {q q' : PriorityQueue K} {op : Op K} {out : List (Request K)} (o : q.Ordered)
    (h : q.serve op = some (out, q')) :
    q'.Ordered ∧ ((∃ request, op = .push request ∧ out = [] ∧ q' = q.push request) ∨
      (op.pushed = [] ∧ Least out q q')) := by
  cases op with
  | push request =>
    obtain ⟨rfl, rfl⟩ := Prod.mk.inj (Option.some.inj h)
    exact ⟨ordered_push o request, .inl ⟨request, rfl, rfl, rfl⟩⟩
  | pop expired =>
    obtain ⟨⟨r, q₁⟩, hp, heq⟩ := Option.map_eq_some_iff.mp h
    obtain ⟨rfl, rfl⟩ := Prod.mk.inj heq
    cases r with
    | none =>
      obtain ⟨rfl, -⟩ := pop_timeout hp
      exact ⟨o, .inr ⟨rfl, Least.nil _⟩⟩
    | some request =>
      rw [pop_eq_some] at hp
      exact ⟨(Heapq.heappop_ordered Request.strictWeak o hp).1,
        .inr ⟨rfl, (Least.nil q₁).cons hp o⟩⟩
  | popBatch maxSize =>
    have hb : pops (min maxSize.toNat q.size) q = some (out, q') :=
      (popBatch_eq q maxSize).trans h
    obtain ⟨hl, ho⟩ := pops_least o hb
    exact ⟨ho, .inr ⟨rfl, hl⟩⟩

/-! ### Runs -/

theorem call_cases {s s' : Served K} {op : Op K} (h : (calls K).step s op = some s') :
    ∃ out q', s.queue.serve op = some (out, q') ∧
      s' = ⟨q', s.pushed ++ op.pushed, s.popped ++ out⟩ := by
  obtain ⟨⟨out, q'⟩, hq, rfl⟩ := Option.map_eq_some_iff.mp h
  exact ⟨out, q', hq, rfl⟩

theorem calls_ordered {s : Served K} (h : (calls K).Reachable s) : s.queue.Ordered := by
  refine Machine.Reachable.invariant (I := fun s => s.queue.Ordered) Heapq.ordered_nil ?_ h
  intro s op s' o hs
  obtain ⟨out, q', hq, rfl⟩ := call_cases hs
  exact (serve_least o hq).1

theorem calls_perm {s : Served K} (h : (calls K).Reachable s) :
    (s.popped ++ s.queue.heap).Perm s.pushed := by
  obtain ⟨is, hr⟩ := h
  induction hr with
  | nil => exact .rfl
  | @snoc is s op s' hr hs ih =>
    obtain ⟨out, q', hq, rfl⟩ := call_cases hs
    obtain ⟨-, ⟨request, rfl, rfl, rfl⟩ | ⟨hnone, hl⟩⟩ := serve_least (calls_ordered ⟨is, hr⟩) hq
    · rw [List.append_nil]
      refine ((push_perm s.queue request).append_left _).trans ?_
      refine List.perm_middle.trans ?_
      exact (ih.cons request).trans (List.perm_append_singleton request s.pushed).symm
    · rw [hnone, List.append_nil, List.append_assoc]
      exact (hl.perm.symm.append_left _).trans ih

/-- While `first` waits in the queue with `second` above it, `second` is not handed out
before `first`. -/
theorem first_before {s : Served K} (hs : (calls K).Reachable s) {first second : Request K}
    (hf : first ∈ s.queue.heap) (hlt : first.lt second = true) {ops : List (Op K)} {t : Served K}
    (ht : (calls K).exec s ops = some t) :
    ∃ out, t.popped = s.popped ++ out ∧ (first ∈ t.queue.heap ∨ first ∈ out) ∧
      ∀ a b, out = a ++ second :: b → first ∈ a := by
  induction ops using List.reverseRecOn generalizing t with
  | nil =>
    obtain rfl : s = t := by simpa [Machine.exec] using ht
    exact ⟨[], (List.append_nil _).symm, .inl hf, fun a b h => by simp at h⟩
  | append_singleton ops op ih =>
    rw [Machine.exec_append] at ht
    obtain ⟨u, hu, hstep⟩ := Option.bind_eq_some_iff.mp ht
    obtain ⟨out, hpop, hwhere, hbefore⟩ := ih hu
    have hreach : (calls K).Reachable u := by
      obtain ⟨is, hr⟩ := hs
      refine ⟨is ++ ops, (Machine.run_iff_exec _).mpr ?_⟩
      rw [Machine.exec_append, (Machine.run_iff_exec _).mp hr]
      exact hu
    obtain ⟨more, q', hq, rfl⟩ := call_cases (by simpa [Machine.exec] using hstep)
    refine ⟨out ++ more, by rw [hpop, List.append_assoc], ?_, ?_⟩
    · obtain ⟨-, ⟨request, rfl, rfl, rfl⟩ | ⟨-, hl⟩⟩ := serve_least (calls_ordered hreach) hq
      · refine hwhere.imp (fun h => ?_) (List.mem_append_left _)
        exact (push_perm _ request).mem_iff.mpr (List.mem_cons_of_mem _ h)
      · rcases hwhere with h | h
        · rcases List.mem_append.mp (hl.perm.mem_iff.mp h) with h | h
          · exact .inr (List.mem_append_right _ h)
          · exact .inl h
        · exact .inr (List.mem_append_left _ h)
    · intro a b hab
      -- `second` was handed out before this call, or leaves in it
      have hsplit : (∃ c, out = a ++ second :: c) ∨ ∃ c, a = out ++ c ∧ more = c ++ second :: b := by
        rcases List.append_eq_append_iff.mp hab with ⟨c, ha, hmore⟩ | ⟨c, ha, hc⟩
        · exact .inr ⟨c, ha, hmore⟩
        · rcases c with _ | ⟨r, c⟩
          · exact .inr ⟨[], by simp [ha], hc.symm⟩
          · obtain ⟨rfl, -⟩ := List.cons.inj hc
            exact .inl ⟨c, ha⟩
      rcases hsplit with ⟨c, hout⟩ | ⟨c, rfl, hmore⟩
      · exact hbefore a c hout
      · rcases hwhere with h | h
        · obtain ⟨-, ⟨request, rfl, rfl, rfl⟩ | ⟨-, hl⟩⟩ := serve_least (calls_ordered hreach) hq
          · simp at hmore
          · exact List.mem_append_right _ (hl.before h hlt hmore)
        · exact List.mem_append_left _ h

/-- What is handed out is least and nothing is lost or added; a batch agrees with single
calls; and of two waiting requests of one priority the earlier leaves first. -/
theorem priority_order {s : Served K} (hs : (calls K).Reachable s) :
    (∀ op out q', s.queue.serve op = some (out, q') → ∀ a r b, out = a ++ r :: b →
      ∀ left ∈ b ++ q'.heap,
        ¬ toLex (left.priority, left.arrivalTime) < toLex (r.priority, r.arrivalTime)) ∧
    (s.popped ++ s.queue.heap).Perm s.pushed ∧
    (∀ maxSize : ℤ,
      pops (min maxSize.toNat s.queue.size) s.queue = some (s.queue.popBatch maxSize)) ∧
    ∀ first ∈ s.queue.heap, ∀ second ∈ s.queue.heap, first.priority = second.priority →
      first.arrivalTime < second.arrivalTime → ∀ ops t, (calls K).exec s ops = some t →
        ∃ out, t.popped = s.popped ++ out ∧ ∀ a b, out = a ++ second :: b → first ∈ a := by
  refine ⟨?_, calls_perm hs, popBatch_eq s.queue, ?_⟩
  · rintro op out q' hq a r b rfl left hleft
    rw [← Request.lt_iff, Bool.not_eq_true]
    obtain ⟨-, ⟨request, -, hnil, -⟩ | ⟨-, hl⟩⟩ := serve_least (calls_ordered hs) hq
    · simp at hnil
    rcases List.mem_append.mp hleft with hb | hkept
    · exact (List.pairwise_cons.mp (List.pairwise_append.mp hl.inOrder).2.1).1 left hb
    · exact hl.kept r (by simp) left hkept
  · intro first hf second _ hp ha ops t ht
    have hlt : first.lt second = true := by simp [Request.lt, hp, ha]
    obtain ⟨out, hout, -, hbefore⟩ := first_before hs hf hlt ht
    exact ⟨out, hout, hbefore⟩

/-- A request whose arrival time is its number. -/
def arrival (ref : ℕ) (priority : ℤ) : Request ℤ :=
  { ref, prompt := "", temperature := 1, topP := 1, priority, arrivalTime := ref, requestId := "" }

/-- Three requests of one priority, not pushed in order, and a later one of higher priority. -/
def fourPushes : List (Op ℤ) :=
  [.push (arrival 3 5), .push (arrival 1 5), .push (arrival 2 5), .push (arrival 4 0)]

theorem priority_order_fourPushes : ∃ s t : Served ℤ, (calls ℤ).Run fourPushes s ∧
    (calls ℤ).exec s [.popBatch 2, .pop false, .pop true, .pop true] = some t ∧
      t.popped = [arrival 4 0, arrival 1 5, arrival 2 5, arrival 3 5] ∧
        ∃ out, t.popped = s.popped ++ out ∧
          ∀ a b, out = a ++ arrival 2 5 :: b → arrival 1 5 ∈ a := by
  have hpushed : ((calls ℤ).exec {} fourPushes).map (fun s => s.queue.heap) =
      some [arrival 4 0, arrival 1 5, arrival 2 5, arrival 3 5] := by decide +kernel
  obtain ⟨s, hs, hheap⟩ := Option.map_eq_some_iff.mp hpushed
  have hserved : ((calls ℤ).exec {} (fourPushes ++
      [.popBatch 2, .pop false, .pop true, .pop true])).map Served.popped =
        some [arrival 4 0, arrival 1 5, arrival 2 5, arrival 3 5] := by decide +kernel
  rw [Machine.exec_append, hs] at hserved
  obtain ⟨t, ht, hpopped⟩ := Option.map_eq_some_iff.mp hserved
  have hr := (Machine.run_iff_exec _).mpr hs
  have hmem : arrival 1 5 ∈ s.queue.heap ∧ arrival 2 5 ∈ s.queue.heap := by simp [hheap]
  exact ⟨s, t, hr, ht, hpopped, (priority_order ⟨_, hr⟩).2.2.2 _ hmem.1 _ hmem.2 rfl
    (by decide) _ t ht⟩

end PriorityQueue
end InferenceCluster
