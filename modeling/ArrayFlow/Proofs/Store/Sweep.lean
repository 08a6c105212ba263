import ArrayFlow.Store.Edit

/-!
# Compaction that may be refused

`ArrayFlow.Store.tryCompactKeepingM` asks a predicate about the elements in order and sweeps
them in place: each accepted element is swapped into the next kept slot. The predicate may carry
a state (`StateM σ`), so its answers may depend on how often and about what it was asked before.

* `ArrayFlow.Store.marksUntil_answered` – **answers go through**: when the predicate answers the
  first elements, asking about the whole list begins with those answers, and the rest is asked
  from the state they leave;
* `ArrayFlow.Store.sweep_regions` – **the three regions** of the sweep: after judging a prefix,
  the accepted elements stand first in their order, the rejected ones next in some order, and the
  unjudged rest last, as it was;
* `ArrayFlow.Store.sweep_perm` – the sweep only rearranges.

The main statement, `ArrayFlow.Store.tryCompactKeepingM_outcome`: when the predicate answers for
every element, the store keeps the accepted ones in order, with the state after exactly one
question per element, as plain compaction does on the same answers; at the first refusal, after
exactly the questions up to it, the refusal is returned and the store keeps every element in
its buffer, arranged in the three regions.
-/

namespace ArrayFlow

namespace Store

variable {α : Type}

/-! ### Marks -/

/-- Keeping the marked elements is filtering the pairs of elements and marks. -/
theorem keepMarked_eq_zip (xs : List α) (bs : List Bool) :
    keepMarked xs bs = ((xs.zip bs).filter (·.2)).map (·.1) := by
  induction xs generalizing bs with
  | nil => simp [keepMarked]
  | cons x xs ih =>
    cases bs with
    | nil => simp [keepMarked]
    | cons b bs => cases b <;> simp [keepMarked, ih]

/-- Keeping the elements whose mark is `false`. -/
theorem keepMarked_not_eq_zip (xs : List α) (bs : List Bool) :
    keepMarked xs (bs.map (!·)) = ((xs.zip bs).filter (!·.2)).map (·.1) := by
  rw [keepMarked_eq_zip, List.zip_map_right, List.filter_map, List.map_map]
  rfl

/-- The accepted and the rejected elements of the judged prefix together are that prefix. -/
theorem keepMarked_append_not_perm (xs : List α) (bs : List Bool) :
    (keepMarked xs bs ++ keepMarked xs (bs.map (!·))).Perm (xs.take bs.length) := by
  induction xs generalizing bs with
  | nil => simp [keepMarked]
  | cons x xs ih =>
    cases bs with
    | nil => simp [keepMarked]
    | cons b bs =>
      cases b
      · simpa [keepMarked] using List.perm_middle.trans ((ih bs).cons x)
      · simpa [keepMarked] using (ih bs).cons x

/-! ### The sweep -/

theorem rotate_perm (as : List α) : (rotate as).Perm as := by
  cases as with
  | nil => rfl
  | cons a as => simp [rotate]

/-- **The three regions of the sweep.** Judging `xs` by the marks `bs`, with `kept` accepted and
`aside` rejected before, gives the accepted elements in order, then the rejected ones in some
order, then the elements not judged, as they were. -/
theorem sweep_regions (kept aside xs : List α) (bs : List Bool) :
    ∃ rejected, sweep kept aside xs bs =
        kept ++ keepMarked xs bs ++ rejected ++ xs.drop bs.length ∧
      rejected.Perm (aside ++ keepMarked xs (bs.map (!·))) := by
  induction xs generalizing kept aside bs with
  | nil =>
    exact ⟨aside, by cases bs <;> simp [sweep, keepMarked], by cases bs <;> simp [keepMarked]⟩
  | cons x xs ih =>
    cases bs with
    | nil => exact ⟨aside, by simp [sweep, keepMarked], by simp [keepMarked]⟩
    | cons b bs =>
      cases b
      · -- a rejected element joins the end of the rejected ones
        obtain ⟨A, hA, hperm⟩ := ih kept (aside ++ [x]) bs
        exact ⟨A, by simpa [sweep, keepMarked] using hA, by simpa [keepMarked] using hperm⟩
      · -- an accepted element is swapped with the first rejected one, which moves to the end
        obtain ⟨A, hA, hperm⟩ := ih (kept ++ [x]) (rotate aside) bs
        exact ⟨A, by simpa [sweep, keepMarked] using hA,
          by simpa [keepMarked] using hperm.trans ((rotate_perm aside).append_right _)⟩

/-- The sweep only rearranges: it holds every element exactly once. -/
theorem sweep_perm (xs : List α) (bs : List Bool) : (sweep [] [] xs bs).Perm xs := by
  obtain ⟨A, hA, hperm⟩ := sweep_regions [] [] xs bs
  have hsplit : (keepMarked xs bs ++ A).Perm (xs.take bs.length) :=
    (hperm.append_left _).trans (by simpa using keepMarked_append_not_perm xs bs)
  rw [hA, List.nil_append]
  simpa using hsplit.append_right (xs.drop bs.length)

/-! ### Asking a predicate that keeps a state -/

section Asking

variable {σ β ε : Type}

/-- Asking about a first element, then about the rest from the state the first answer left. -/
theorem run_mapM_cons (f : α → StateM σ β) (x : α) (xs : List α) (σ₀ : σ) :
    ((x :: xs).mapM f).run σ₀ =
      (((f x).run σ₀).1 :: ((xs.mapM f).run ((f x).run σ₀).2).1,
        ((xs.mapM f).run ((f x).run σ₀).2).2) := by
  simp only [List.mapM_cons, StateT.run_bind, StateT.run_pure]
  rfl

/-- One answer per element. -/
theorem length_mapM_run (f : α → StateM σ β) (xs : List α) (σ₀ : σ) :
    ((xs.mapM f).run σ₀).1.length = xs.length := by
  induction xs generalizing σ₀ with
  | nil => rfl
  | cons x xs ih =>
    rw [run_mapM_cons]
    simp [ih]

variable (q : α → StateM σ (Except ε Bool))

/-- A refusal about the first element ends the questions. -/
theorem run_marksUntil_refused {x : α} (xs : List α) {σ₀ σ₁ : σ} {e : ε}
    (h : (q x).run σ₀ = (.error e, σ₁)) :
    (marksUntil q (x :: xs)).run σ₀ = (([], some e), σ₁) := by
  simp only [marksUntil, StateT.run_bind, h]
  rfl

/-- An answer about the first element is kept, and the rest is asked from the state it left. -/
theorem run_marksUntil_answered {x : α} (xs : List α) {σ₀ σ₁ : σ} {b : Bool}
    (h : (q x).run σ₀ = (.ok b, σ₁)) :
    (marksUntil q (x :: xs)).run σ₀ =
      ((b :: ((marksUntil q xs).run σ₁).1.1, ((marksUntil q xs).run σ₁).1.2),
        ((marksUntil q xs).run σ₁).2) := by
  simp only [marksUntil, StateT.run_bind, h]
  rfl

/-- **Answers go through**: when the predicate answers the first `bs.length` elements with the
marks `bs`, ending in `σ₁`, asking about the whole list gives those marks followed by what
asking about the rest from `σ₁` gives. -/
theorem marksUntil_answered :
    ∀ (xs : List α) (bs : List Bool) (σ₀ σ₁ : σ),
      ((xs.take bs.length).mapM q).run σ₀ = (bs.map .ok, σ₁) →
      (marksUntil q xs).run σ₀ =
        ((bs ++ ((marksUntil q (xs.drop bs.length)).run σ₁).1.1,
          ((marksUntil q (xs.drop bs.length)).run σ₁).1.2),
          ((marksUntil q (xs.drop bs.length)).run σ₁).2)
  | xs, [], σ₀, σ₁, h => by
    obtain ⟨-, rfl⟩ := Prod.mk.inj h
    rfl
  | [], b :: bs, σ₀, σ₁, h => by
    obtain ⟨h, -⟩ := Prod.mk.inj h
    simp at h
  | x :: xs, b :: bs, σ₀, σ₁, h => by
    rcases hq : (q x).run σ₀ with ⟨v, σa⟩
    simp only [List.length_cons, List.take_succ_cons, run_mapM_cons, hq] at h
    obtain ⟨h, hσ⟩ := Prod.mk.inj h
    obtain ⟨rfl, hxs⟩ := List.cons.inj h
    rw [run_marksUntil_answered q xs hq, marksUntil_answered xs bs σa σ₁ (Prod.ext hxs hσ)]
    rfl

/-- A predicate that answers for every element is asked about each once, in order. -/
theorem marksUntil_of_answers {xs : List α} {bs : List Bool} {σ₀ σ₁ : σ}
    (h : (xs.mapM q).run σ₀ = (bs.map .ok, σ₁)) :
    (marksUntil q xs).run σ₀ = ((bs, none), σ₁) := by
  have hlen := length_mapM_run q xs σ₀
  rw [h, List.length_map] at hlen
  have hall : ((xs.take bs.length).mapM q).run σ₀ = (bs.map .ok, σ₁) := by
    rw [hlen, List.take_length]
    exact h
  rw [marksUntil_answered q xs bs σ₀ σ₁ hall, hlen, List.drop_length]
  -- nothing is left to ask about
  exact congrArg (fun l => ((l, none), σ₁)) (List.append_nil bs)

/-- A predicate that answers the first `e` elements and refuses the next is asked exactly those
`e + 1` questions. -/
theorem marksUntil_of_refusal {xs : List α} {e : Nat} {bs : List Bool} {σ₀ σa σ₁ : σ} {x : α}
    {err : ε} (hbs : bs.length = e) (hpre : ((xs.take e).mapM q).run σ₀ = (bs.map .ok, σa))
    (hx : xs[e]? = some x) (herr : (q x).run σa = (.error err, σ₁)) :
    (marksUntil q xs).run σ₀ = ((bs, some err), σ₁) := by
  subst hbs
  obtain ⟨hlt, rfl⟩ := List.getElem?_eq_some_iff.mp hx
  rw [marksUntil_answered q xs bs σ₀ σa hpre, List.drop_eq_getElem_cons hlt,
    run_marksUntil_refused q _ herr]
  simp

/-- Compaction from a state: the store the marks and the refusal decide, in the state the
questions left. -/
theorem run_tryCompactKeepingM_of_none (s : Store α) {σ₀ σ₁ : σ} {bs : List Bool}
    (h : (marksUntil q s.items).run σ₀ = ((bs, none), σ₁)) :
    (s.tryCompactKeepingM q).run σ₀ =
      ((.ok (), s.keep (keepMarked s.items bs) (length_keepMarked_le _ _)), σ₁) := by
  simp only [tryCompactKeepingM, StateT.run_bind, h]
  rfl

theorem run_tryCompactKeepingM_of_some (s : Store α) {σ₀ σ₁ : σ} {bs : List Bool} {e : ε}
    (h : (marksUntil q s.items).run σ₀ = ((bs, some e), σ₁)) :
    (s.tryCompactKeepingM q).run σ₀ =
      ((.error e, s.keep (sweep [] [] s.items bs)
        (Nat.le_of_eq ((length_sweep [] [] s.items bs).trans (Nat.zero_add _)))), σ₁) := by
  simp only [tryCompactKeepingM, StateT.run_bind, h]
  rfl

end Asking

/-- Plain compaction from a state keeps the elements marked by its answers. -/
theorem run_compactKeepingM {τ : Type} (s : Store α) (p : α → StateM τ Bool) {τ₀ τ₁ : τ}
    {bs : List Bool} (h : (s.items.mapM p).run τ₀ = (bs, τ₁)) :
    (s.compactKeepingM p).run τ₀ =
      (s.keep (keepMarked s.items bs) (length_keepMarked_le _ _), τ₁) := by
  simp only [compactKeepingM, StateT.run_bind, h]
  rfl

/-! ### The outcome -/

/-- **Compaction that may be refused.** Let a predicate that keeps a state be asked about the
elements in order, from the state `σ₀`.

* If it answers `bs` for every element, ending in `σ₁`, the compaction succeeds in the state
  `σ₁` – the predicate was asked exactly once per element – and keeps the elements marked
  `true`, in order, in the same buffer: the store that plain compaction gives for a predicate
  with the same answers.
* If it answers `bs` for the first `e` elements, ending in `σa`, and refuses the next one, ending
  in `σ₁`, the compaction returns that refusal in the state `σ₁` – exactly `e + 1` questions –
  and the store keeps its length, buffer and count and holds every element exactly once: first
  the accepted elements among the first `e`, in order, then the rejected ones among them in some
  order, then the elements from index `e` on, as they were. -/
theorem tryCompactKeepingM_outcome {σ ε : Type} (s : Store α)
    (q : α → StateM σ (Except ε Bool)) (σ₀ : σ) :
    (∀ (bs : List Bool) (σ₁ : σ), (s.items.mapM q).run σ₀ = (bs.map .ok, σ₁) →
      ∃ t, (s.tryCompactKeepingM q).run σ₀ = ((.ok (), t), σ₁) ∧
        t.items = ((s.items.zip bs).filter (·.2)).map (·.1) ∧
        t.capacity = s.capacity ∧ t.reallocations = s.reallocations ∧
        ∀ (τ : Type) (p : α → StateM τ Bool) (τ₀ τ₁ : τ), (s.items.mapM p).run τ₀ = (bs, τ₁) →
          (s.compactKeepingM p).run τ₀ = (t, τ₁)) ∧
    (∀ (e : Nat) (bs : List Bool) (σa σ₁ : σ) (x : α) (err : ε), bs.length = e →
      ((s.items.take e).mapM q).run σ₀ = (bs.map .ok, σa) → s.items[e]? = some x →
      (q x).run σa = (.error err, σ₁) →
      ∃ t, (s.tryCompactKeepingM q).run σ₀ = ((.error err, t), σ₁) ∧
        t.items.length = s.items.length ∧ t.capacity = s.capacity ∧
        t.reallocations = s.reallocations ∧ t.items.Perm s.items ∧
        ∃ rejected, t.items =
            ((s.items.zip bs).filter (·.2)).map (·.1) ++ rejected ++ s.items.drop e ∧
          rejected.Perm (((s.items.zip bs).filter (!·.2)).map (·.1))) := by
  refine ⟨fun bs σ₁ h => ?_, fun e bs σa σ₁ x err hbs hpre hx herr => ?_⟩
  · refine ⟨_, run_tryCompactKeepingM_of_none q s (marksUntil_of_answers q h),
      keepMarked_eq_zip _ _, rfl, rfl, fun τ p τ₀ τ₁ hp => run_compactKeepingM s p hp⟩
  · have hperm := sweep_perm s.items bs
    obtain ⟨A, hA, hrej⟩ := sweep_regions [] [] s.items bs
    refine ⟨_, run_tryCompactKeepingM_of_some q s (marksUntil_of_refusal q hbs hpre hx herr),
      hperm.length_eq, rfl, rfl, hperm, A, ?_, ?_⟩
    · simp only [items_keep, hA, List.nil_append, keepMarked_eq_zip, hbs]
    · simpa [keepMarked_not_eq_zip] using hrej

/-- Six elements, first with a predicate that counts its questions and answers for every
element, keeping the multiples of three; then with one that refuses `4`, at its fourth question,
keeping `1` and `3` ahead of the rejected `2` and the untouched `4, 5, 6`. -/
theorem compaction_of_one_to_six :
    let s : Store Nat := ofList [1, 2, 3, 4, 5, 6]
    let thirds : Nat → StateM Nat (Except String Bool) := fun x =>
      modifyGet fun n => (.ok (x % 3 == 0), n + 1)
    let refuseFour : Nat → StateM Nat (Except String Bool) := fun x =>
      modifyGet fun n => (if x = 4 then .error "boom" else .ok (x % 2 == 1), n + 1)
    (∃ t, (s.tryCompactKeepingM thirds).run 0 = ((.ok (), t), 6) ∧ t.items = [3, 6]) ∧
    (∃ t, (s.tryCompactKeepingM refuseFour).run 0 = ((.error "boom", t), 4) ∧
      t.items = [1, 3, 2, 4, 5, 6]) := by
  intro s thirds refuseFour
  constructor
  · obtain ⟨t, hrun, hitems, -⟩ := (tryCompactKeepingM_outcome s thirds 0).1
      [false, false, true, false, false, true] 6 rfl
    exact ⟨t, hrun, hitems.trans rfl⟩
  · obtain ⟨t, hrun, -, -, -, -, A, hA, hrej⟩ := (tryCompactKeepingM_outcome s refuseFour 0).2
      3 [true, false, true] 3 4 4 "boom" rfl rfl rfl rfl
    have hA2 : A = [2] := List.perm_singleton.mp hrej
    exact ⟨t, hrun, by rw [hA, hA2]; rfl⟩

end Store

end ArrayFlow
