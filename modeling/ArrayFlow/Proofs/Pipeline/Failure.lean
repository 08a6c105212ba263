import ArrayFlow.Proofs.Pipeline.Outcome

/-!
# Which failure a run reports

In the monad of failures alone, with no state, a run of a strategy is a list computation:
the sequential strategy fails exactly when its one batch fails, and the parallel strategy
answers the failure of its lowest failing batch, if any (`ArrayFlow.Strategy.run_parallel_except`).
Where the batches read the source one after the other, the two compare as follows.

* **A walk that fails on elements alone** – every operation but the searches, and a fold whose
  step fails on the element and not on the accumulator – fails at the first element of its
  inputs that fails (`ArrayFlow.Batch.fold_eq_error_iff`). The lowest failing batch then fails
  with the first failure of the whole source, so the parallel strategy reports exactly the
  failure that stops the sequential one (`ArrayFlow.Strategy.parallel_fails_iff`, and for each
  operation `ArrayFlow.Strategy.forEach_fails_iff` and its siblings).
* **A search** stops at its first hit (`ArrayFlow.Stage.tryFold_search`), and failures past it
  are never reached. A failure that stops the sequential search lies before the first hit, so
  the parallel strategy reports it too; and when no batch fails, the first hit of the lowest
  batch that has one is the first hit of the source
  (`ArrayFlow.Strategy.findSomeM_flatMap_error`, `ArrayFlow.Strategy.findSomeM_flatMap_ok`,
  assembled in `ArrayFlow.Strategy.parallel_search`).
-/

namespace ArrayFlow

variable {ε α β : Type}

/-! ### Runs in the monad of failures -/

@[simp] theorem except_pure (a : α) : (pure a : Except ε α) = .ok a := rfl

@[simp] theorem except_error_bind (e : ε) (f : α → Except ε β) :
    (Except.error e >>= f) = .error e :=
  rfl

@[simp] theorem except_ok_bind (a : α) (f : α → Except ε β) : (Except.ok a >>= f) = f a := rfl

namespace Strategy

/-- The parallel strategy, with no state, answers the outcomes of its batches: the failure of
the lowest failing batch, or all their answers. -/
theorem run_parallel_except (par : Parallel) (p : Pipeline (Except ε) α)
    (task : Batch (Except ε) α → Except ε β) :
    (Strategy.parallel par).run (ε := ε) p task =
      pure (((p.split par.batchSize par.batchSize_pos).map task).mapM id) := by
  simp only [run, tryCatchThe_except, List.mapM_pure, pure_bind]

/-- The sequential strategy fails with its one batch. -/
theorem run_sequential_except (p : Pipeline (Except ε) α)
    (task : Batch (Except ε) α → Except ε β) :
    Strategy.sequential.run (ε := ε) p task = task p.whole >>= fun v => pure (.ok [v]) :=
  rfl

end Strategy

/-! ### Walks that fail on elements alone -/

/-- Of two computations that fail alike, a check answers when the other computation does. -/
theorem ok_of_fails_alike {x : Except ε β} {y : Except ε Unit}
    (h : ∀ e, x = .error e ↔ y = .error e) {v : β} (hx : x = .ok v) : y = .ok () := by
  rcases hy : y with e | _
  · exact absurd ((h e).mpr hy) (by simp [hx])
  · rfl

/-- **Where an element fails** in a walk whose step fails on elements alone: in its passage
through the chain, or in the step on what comes out. -/
def failureAt (chain : List (Stage (Except ε) α)) (bad : α → Except ε Unit) (x : α) :
    Except ε Unit :=
  Stage.pass chain x >>= fun o =>
    match o with
    | none => pure ()
    | some y => bad y

/-- **A walk whose step fails on elements alone** fails with the first failure among its
inputs, whatever the accumulator. -/
theorem Stage.tryFold_eq_error_iff (chain : List (Stage (Except ε) α)) (f : β → α → Except ε β)
    (bad : α → Except ε Unit) (hbad : ∀ acc y e, f acc y = .error e ↔ bad y = .error e) :
    ∀ (xs : List α) (acc : β) (e : ε),
      tryFold chain (fun acc y => do pure (ForInStep.yield (← f acc y))) xs acc = .error e ↔
        forM xs (failureAt chain bad) = .error e
  | [], _, _ => by simp [tryFold]
  | x :: xs, acc, e => by
    rw [tryFold_cons, List.forM_cons, failureAt]
    rcases hpass : pass chain x with e' | _ | y
    · simp
    · simpa using tryFold_eq_error_iff chain f bad hbad xs acc e
    · rcases hy : f acc y with e' | v
      · have hb : bad y = .error e' := (hbad acc y e').mp hy
        simp [hy, hb]
      · -- the element passes: the step does not fail on it, and the walk goes on
        have hb : bad y = .ok () := ok_of_fails_alike (hbad acc y) hy
        simpa [hy, hb] using tryFold_eq_error_iff chain f bad hbad xs v e

/-- A computation followed by an answer that cannot fail fails exactly when the computation
does. -/
@[simp] theorem bind_ok_eq_error_iff {γ : Type} (x : Except ε β) (g : β → γ) (e : ε) :
    (x >>= fun v => .ok (g v)) = .error e ↔ x = .error e := by
  cases x <;> simp

@[simp] theorem map_eq_error_iff {γ : Type} (g : β → γ) (x : Except ε β) (e : ε) :
    x.map g = .error e ↔ x = .error e := by
  cases x <;> simp [Except.map]

/-- **A fold of a batch whose step fails on elements alone** fails with the first failure among
the batch's inputs. -/
theorem Batch.fold_eq_error_iff (b : Batch (Except ε) α) (init : β) (f : β → α → Except ε β)
    (bad : α → Except ε Unit) (hbad : ∀ acc y e, f acc y = .error e ↔ bad y = .error e)
    (e : ε) : b.fold init f = .error e ↔ forM b.inputs (failureAt b.chain bad) = .error e := by
  have key := Stage.tryFold_eq_error_iff b.chain f bad hbad b.inputs init e
  unfold fold tryFold
  rcases hw : Stage.tryFold b.chain (fun acc y => do pure (ForInStep.yield (← f acc y))) b.inputs
    init with e' | r
  · rw [hw] at key
    simpa using key
  · rw [hw] at key
    cases r <;> simpa using key

/-- Listing a batch's outputs fails only in the chain. -/
theorem Batch.toList_eq_error_iff (b : Batch (Except ε) α) (e : ε) :
    b.toList = .error e ↔ forM b.inputs (failureAt b.chain fun _ => pure ()) = .error e := by
  unfold Batch.toList
  simp only [except_pure, bind_ok_eq_error_iff]
  exact b.fold_eq_error_iff [] _ _ (fun _ _ _ => by simp) e

/-! ### The lowest failing batch -/

/-- **The first failure among parts** is the first failure of the parts put end to end, when
each part fails with the first failure among its own elements. -/
theorem mapM_map_eq_error_iff {γ : Type} (task : γ → Except ε β) (g : γ → List α)
    (check : α → Except ε Unit) :
    ∀ (bs : List γ), (∀ b ∈ bs, ∀ e, task b = .error e ↔ forM (g b) check = .error e) →
      ∀ e, (bs.map task).mapM id = .error e ↔ forM (bs.flatMap g) check = .error e
  | [], _, e => by simp
  | b :: bs, h, e => by
    rw [List.map_cons, List.mapM_cons, List.flatMap_cons, List.forM_append]
    rcases htb : task b with e' | v
    · have hg := (h b (by simp) e').mp htb
      simp [hg]
    · -- the first part answers: its elements do not fail, and the rest decides
      have hg : forM (g b) check = .ok () := ok_of_fails_alike (h b (by simp)) htb
      simpa [hg] using
        mapM_map_eq_error_iff task g check bs (fun b' hb' => h b' (by simp [hb'])) e

/-! ### Searches -/

namespace Stage

variable {m : Type → Type} [Monad m] [LawfulMonad m]

/-- **What an element makes of a search**: what the chain hands on, if the predicate accepts
it; nothing if a filter drops it or the predicate refuses it. -/
def hitAt (chain : List (Stage m α)) (q : α → m Bool) (x : α) : m (Option α) := do
  match ← pass chain x with
  | none => pure none
  | some y => pure (if ← q y then some y else none)

/-- **A search stops at its first hit**: the walk of a step that stops on the outputs a
predicate accepts is the search for the first input whose output is accepted. -/
theorem tryFold_search (chain : List (Stage m α)) (q : α → m Bool) (hit : α → β) (miss : β) :
    ∀ xs : List α,
      tryFold chain (fun _ y => do if ← q y then pure (.done (hit y)) else pure (.yield miss))
          xs miss =
        (fun o => o.elim (ForInStep.yield miss) fun y => .done (hit y)) <$>
          xs.findSomeM? (hitAt chain q)
  | [] => by simp [tryFold]
  | x :: xs => by
    rw [tryFold_cons, List.findSomeM?_cons, hitAt, map_bind, bind_assoc]
    refine bind_congr fun o => ?_
    cases o with
    | none => simp [tryFold_search chain q hit miss xs]
    | some y =>
      simp only [bind_assoc]
      refine bind_congr fun t => ?_
      cases t <;> simp [tryFold_search chain q hit miss xs]

end Stage

/-- The search over a concatenation is the search over its first part, then, without a hit, over
the second. -/
theorem findSomeM?_append {m : Type → Type} [Monad m] [LawfulMonad m] (f : α → m (Option β))
    (l₁ l₂ : List α) :
    (l₁ ++ l₂).findSomeM? f = l₁.findSomeM? f >>= fun o =>
      match o with
      | some y => pure (some y)
      | none => l₂.findSomeM? f := by
  induction l₁ with
  | nil => simp
  | cons x xs ih =>
    rw [List.cons_append, List.findSomeM?_cons, List.findSomeM?_cons, bind_assoc]
    refine bind_congr fun o => ?_
    cases o with
    | none => exact ih
    | some y => simp

namespace Batch

variable {m : Type → Type} [Monad m] [LawfulMonad m] (b : Batch m α) (p : α → m Bool)

theorem detect_eq_findSomeM : b.detect p = b.inputs.findSomeM? (Stage.hitAt b.chain p) := by
  unfold detect tryFold
  rw [Stage.tryFold_search b.chain p some none, bind_map_left]
  conv => rhs; rw [← bind_pure (b.inputs.findSomeM? _)]
  refine bind_congr fun o => ?_
  cases o <;> rfl

theorem anySatisfy_eq_findSomeM :
    b.anySatisfy p = Option.isSome <$> b.inputs.findSomeM? (Stage.hitAt b.chain p) := by
  unfold anySatisfy tryFold
  rw [Stage.tryFold_search b.chain p (fun _ => true) false, bind_map_left, map_eq_pure_bind]
  refine bind_congr fun o => ?_
  cases o <;> rfl

theorem allSatisfy_eq_findSomeM :
    b.allSatisfy p =
      Option.isNone <$> b.inputs.findSomeM? (Stage.hitAt b.chain fun y => (!·) <$> p y) := by
  -- the step that stops at a refusal is the search for an output the negation accepts
  have hstep : (fun (_ : Bool) (y : α) => (do
        if ← p y then pure (ForInStep.yield true) else pure (ForInStep.done false) : m _)) =
      fun (_ : Bool) (y : α) => (do
        if ← (!·) <$> p y then pure (ForInStep.done false) else pure (ForInStep.yield true) :
          m _) := by
    funext _ y
    rw [bind_map_left]
    refine bind_congr fun t => ?_
    cases t <;> rfl
  unfold allSatisfy tryFold
  rw [hstep, Stage.tryFold_search b.chain _ (fun _ => false) true, bind_map_left,
    map_eq_pure_bind]
  refine bind_congr fun o => ?_
  cases o <;> rfl

end Batch

namespace Strategy

/-- A fold whose identity is a value and whose merge is a function answers the left reduction,
by that function, of the batch results, and `init` when there is none. -/
theorem fold_pure_merge {m : Type → Type} [Monad m] [LawfulMonad m] [MonadExceptOf ε m]
    (s : Strategy) (p : Pipeline m α) (init : β) (step : β → α → m β) (r : β → β → β) :
    s.fold (ε := ε) p (pure init) step (fun a b => pure (r a b)) =
      s.run (ε := ε) p (·.fold init step) >>= fun res => pure (res.map fun vs =>
        match vs with
        | [] => init
        | v :: vs => vs.foldl r v) := by
  unfold fold
  simp only [pure_bind]
  refine bind_congr fun res => ?_
  rcases res with e | _ | ⟨v, vs⟩
  · rfl
  · exact map_pure _ _
  · simp [List.foldlM_pure, Except.map]

/-- **A fold over an empty source** answers its identity, run once, under either strategy: the
one batch of the sequential strategy reads nothing, and the parallel strategy has no batch. -/
theorem fold_of_source_nil {m : Type → Type} [Monad m] [LawfulMonad m] [MonadExceptOf ε m]
    (s : Strategy) (p : Pipeline m α) (hnil : p.source = []) (init : m β) (step : β → α → m β)
    (merge : β → β → m β) :
    s.fold (ε := ε) p init step merge = Except.ok <$> init := by
  cases s with
  | sequential =>
    have hin : p.whole.inputs = [] := by rw [Pipeline.inputs_whole, hnil]
    have htask : (do p.whole.fold (← init) step) = init := by
      simp [Batch.fold, Batch.tryFold, hin, Stage.tryFold]
    simp [fold, run, htask]
  | parallel par =>
    simp [fold, run, (Pipeline.split_eq_nil_iff p _ _).mpr hnil]

variable (par : Parallel) (p : Pipeline (Except ε) α)

/-- **The parallel strategy reports the failure that stops the sequential one**, for a task
that fails on a batch with the first failure among the batch's inputs. -/
theorem parallel_fails_iff (task : Batch (Except ε) α → Except ε β) (check : α → Except ε Unit)
    (h : ∀ b : Batch (Except ε) α, b.chain = p.chain →
      ∀ e, task b = .error e ↔ forM b.inputs check = .error e) (e : ε) :
    (Strategy.parallel par).run (ε := ε) p task = .ok (.error e) ↔
      Strategy.sequential.run (ε := ε) p task = .error e := by
  have hin : (p.split par.batchSize par.batchSize_pos).flatMap Batch.inputs = p.source :=
    flatMap_inputs_batches (.parallel par) p
  -- the batches fail with the first failure of the source, and so does the whole source
  have hpar := mapM_map_eq_error_iff task Batch.inputs check
    (p.split par.batchSize par.batchSize_pos)
    (fun b hb => h b (p.chain_of_mem_splitFrom _ _ 0 b hb).2) e
  have hseq := h p.whole rfl e
  rw [hin] at hpar
  rw [Pipeline.inputs_whole] at hseq
  rw [run_parallel_except, run_sequential_except, except_pure, Except.ok.injEq, hpar]
  simpa using hseq.symm

/-- The same, for an operation that combines the answers of the batches. -/
theorem parallel_map_fails_iff {γ : Type} (task : Batch (Except ε) α → Except ε β)
    (combine : List β → γ) (check : α → Except ε Unit)
    (h : ∀ b : Batch (Except ε) α, b.chain = p.chain →
      ∀ e, task b = .error e ↔ forM b.inputs check = .error e) (e : ε) :
    ((Strategy.parallel par).run (ε := ε) p task >>= fun r => pure (r.map combine)) =
        .ok (.error e) ↔
      (Strategy.sequential.run (ε := ε) p task >>= fun r => pure (r.map combine)) =
        .error e := by
  have key := parallel_fails_iff par p task check h e
  rw [run_parallel_except, run_sequential_except] at key ⊢
  -- combining the answers neither causes nor hides a failure
  simp only [except_pure, except_ok_bind, Except.ok.injEq, bind_assoc, bind_ok_eq_error_iff,
    map_eq_error_iff] at key ⊢
  exact key

/-! ### Operations that fail on elements alone -/

/-- On a batch of the pipeline, a fold whose step fails on elements alone fails with the first
failure among the batch's inputs. -/
theorem fold_task_fails (init : β) (f : β → α → Except ε β) (bad : α → Except ε Unit)
    (hbad : ∀ acc y e, f acc y = .error e ↔ bad y = .error e) (b : Batch (Except ε) α)
    (hb : b.chain = p.chain) (e : ε) :
    b.fold init f = .error e ↔ forM b.inputs (failureAt p.chain bad) = .error e := by
  rw [← hb]
  exact Batch.fold_eq_error_iff b init f bad hbad e

section Operations

variable {κ : Type} (e : ε)

theorem forEach_fails_iff (proc : α → Except ε Unit) :
    (Strategy.parallel par).forEach (ε := ε) p proc = .ok (.error e) ↔
      Strategy.sequential.forEach (ε := ε) p proc = .error e :=
  parallel_map_fails_iff par p _ _ (failureAt p.chain proc)
    (fold_task_fails p () (fun _ y => proc y) proc fun _ _ _ => Iff.rfl) e

theorem count_fails_iff (keep : α → Except ε Bool) :
    (Strategy.parallel par).count (ε := ε) p keep = .ok (.error e) ↔
      Strategy.sequential.count (ε := ε) p keep = .error e :=
  parallel_map_fails_iff par p _ _ (failureAt p.chain fun y => keep y >>= fun _ => pure ())
    (fold_task_fails p 0 _ _ fun _ _ _ => by simp only [except_pure, bind_ok_eq_error_iff]) e

/-- Selecting fails where the chain, followed by the predicate as one more filter, fails. -/
theorem select_fails_iff (keep : α → Except ε Bool) :
    (Strategy.parallel par).select (ε := ε) p keep = .ok (.error e) ↔
      Strategy.sequential.select (ε := ε) p keep = .error e :=
  parallel_map_fails_iff par p _ _ (failureAt (p.chain ++ [.filter keep]) fun _ => pure ())
    (fun b hb e => by rw [Batch.toList_eq_error_iff, Batch.select, hb]; exact Iff.rfl) e

theorem collect_fails_iff (f : α → Except ε α) :
    (Strategy.parallel par).collect (ε := ε) p f = .ok (.error e) ↔
      Strategy.sequential.collect (ε := ε) p f = .error e :=
  parallel_map_fails_iff par p _ _ (failureAt (p.chain ++ [.map f]) fun _ => pure ())
    (fun b hb e => by rw [Batch.toList_eq_error_iff, Batch.collect, hb]; exact Iff.rfl) e

theorem distinct_fails_iff [BEq α] :
    (Strategy.parallel par).distinct (ε := ε) p = .ok (.error e) ↔
      Strategy.sequential.distinct (ε := ε) p = .error e :=
  parallel_map_fails_iff par p _ _ (failureAt p.chain fun _ => pure ())
    (fun b hb e => by rw [← hb]; exact (map_eq_error_iff _ _ e).trans (b.toList_eq_error_iff e)) e

theorem groupBy_fails_iff [BEq κ] (key : α → Except ε κ)
    (order : Nat → List (κ × List α) → List (κ × List α)) :
    (Strategy.parallel par).groupBy (ε := ε) p key order = .ok (.error e) ↔
      Strategy.sequential.groupBy (ε := ε) p key order = .error e :=
  parallel_map_fails_iff par p _ _ (failureAt p.chain fun y => key y >>= fun _ => pure ())
    (fold_task_fails p [] _ _ fun _ _ _ => by simp only [except_pure, bind_ok_eq_error_iff]) e

/-- A merge that never fails is a function. -/
theorem eq_pure_of_ne_error (merge : β → β → Except ε β) (h : ∀ a b e, merge a b ≠ .error e) :
    merge = fun a b => pure ((merge a b).toOption.getD a) := by
  funext a b
  cases hm : merge a b with
  | error e' => exact absurd hm (h a b e')
  | ok c => rfl

/-- A fold over a source with elements, whose step fails on elements alone, whatever the
accumulator, and whose merge never fails. An identity that fails makes every batch fail with
it, and there is at least one batch. -/
theorem fold_fails_iff (init : Except ε β) (step : β → α → Except ε β)
    (merge : β → β → Except ε β)
    (hstep : ∀ acc acc' y e, step acc y = .error e ↔ step acc' y = .error e)
    (hmerge : ∀ a b e, merge a b ≠ .error e) (hne : p.source ≠ []) :
    (Strategy.parallel par).fold (ε := ε) p init step merge = .ok (.error e) ↔
      Strategy.sequential.fold (ε := ε) p init step merge = .error e := by
  cases init with
  | error e₀ =>
    obtain ⟨b, bs, hbs⟩ :=
      List.exists_cons_of_ne_nil ((Pipeline.split_eq_nil_iff p _ par.batchSize_pos).not.mpr hne)
    simp [Strategy.fold, run_parallel_except, run_sequential_except, hbs]
  | ok i =>
    rw [← except_pure i, eq_pure_of_ne_error merge hmerge, fold_pure_merge, fold_pure_merge]
    -- the step fails where it fails from `i`
    have hbad : ∀ acc y e, step acc y = .error e ↔ (step i y >>= fun _ => pure ()) = .error e :=
      fun acc y e => by rw [hstep acc i y e, except_pure, bind_ok_eq_error_iff]
    exact parallel_map_fails_iff par p _ _
      (failureAt p.chain fun y => step i y >>= fun _ => pure ())
      (fold_task_fails p i step _ hbad) e

end Operations

/-! ### The first hit -/

section Search

variable {γ δ θ : Type} (f : α → Except ε (Option β)) (g : γ → List α) (φ : Option β → δ)

/-- **A failure before the first hit** of parts put end to end is the failure of the first part
that does not answer. -/
theorem findSomeM_flatMap_error :
    ∀ (bs : List γ) (e : ε), (bs.flatMap g).findSomeM? f = .error e →
      (bs.map fun b => φ <$> (g b).findSomeM? f).mapM id = .error e
  | [], e, h => by simp at h
  | b :: bs, e, h => by
    rw [List.flatMap_cons, findSomeM?_append] at h
    rw [List.map_cons, List.mapM_cons]
    rcases hb : (g b).findSomeM? f with e' | _ | y
    · rw [hb] at h
      simpa using h
    · -- no hit in the first part: the failure lies further on
      rw [hb] at h
      simp [findSomeM_flatMap_error bs e h]
    · rw [hb] at h
      simp at h

/-- **When every part answers**, the first hit of the parts put end to end is the first hit of
the first part that has one. -/
theorem findSomeM_flatMap_ok :
    ∀ (bs : List γ) (ds : List δ), (bs.map fun b => φ <$> (g b).findSomeM? f).mapM id = .ok ds →
      ∃ os : List (Option β), ds = os.map φ ∧ (bs.flatMap g).findSomeM? f = .ok (os.findSome? id)
  | [], ds, h => ⟨[], by simpa using h.symm, by simp⟩
  | b :: bs, ds, h => by
    rw [List.map_cons, List.mapM_cons] at h
    rcases hb : (g b).findSomeM? f with e' | o
    · simp [hb] at h
    rcases hrest : (bs.map fun b => φ <$> (g b).findSomeM? f).mapM id with e' | ds'
    · simp [hb, hrest] at h
    obtain ⟨os, rfl, hos⟩ := findSomeM_flatMap_ok bs ds' hrest
    simp [hb, hrest] at h
    refine ⟨o :: os, by simp [← h], ?_⟩
    rw [List.flatMap_cons, findSomeM?_append, hb]
    cases o <;> simp [hos]

/-- **A search under the parallel strategy** reports every failure that stops the sequential
search, and answers, when no batch fails, what the sequential search answers: for a task that
searches the batch's inputs, and answers combined so that only the first hit counts. -/
theorem parallel_search (task : Batch (Except ε) α → Except ε δ) (H : α → Except ε (Option α))
    (φ : Option α → δ) (combine : List δ → θ)
    (htask : ∀ b : Batch (Except ε) α, b.chain = p.chain → task b = φ <$> b.inputs.findSomeM? H)
    (hcombine : ∀ os : List (Option α), combine (os.map φ) = combine [φ (os.findSome? id)]) :
    (∀ e, (Strategy.sequential.run (ε := ε) p task >>= fun r => pure (r.map combine)) =
        .error e →
      ((Strategy.parallel par).run (ε := ε) p task >>= fun r => pure (r.map combine)) =
        .ok (.error e)) ∧
    (∀ v, ((Strategy.parallel par).run (ε := ε) p task >>= fun r => pure (r.map combine)) =
        .ok (.ok v) →
      (Strategy.sequential.run (ε := ε) p task >>= fun r => pure (r.map combine)) =
        .ok (.ok v)) := by
  have hin : (p.split par.batchSize par.batchSize_pos).flatMap Batch.inputs = p.source :=
    flatMap_inputs_batches (.parallel par) p
  have hpar : (p.split par.batchSize par.batchSize_pos).map task =
      (p.split par.batchSize par.batchSize_pos).map fun b => φ <$> b.inputs.findSomeM? H :=
    List.map_congr_left fun b hb => htask b (p.chain_of_mem_splitFrom _ _ 0 b hb).2
  have hseq : task p.whole = φ <$> p.source.findSomeM? H := by
    rw [htask p.whole rfl, Pipeline.inputs_whole]
  rw [run_parallel_except, run_sequential_except, hpar, hseq]
  refine ⟨fun e h => ?_, fun v h => ?_⟩
  · -- the sequential search fails before any hit, and so does the lowest failing batch
    have hsrc : p.source.findSomeM? H = .error e := by
      rcases hs : p.source.findSomeM? H with e' | o
      · simpa [hs] using h
      · simp [hs] at h
    rw [← hin] at hsrc
    simp [findSomeM_flatMap_error H Batch.inputs φ _ e hsrc]
  · rcases hm : ((p.split par.batchSize par.batchSize_pos).map
        fun b => φ <$> b.inputs.findSomeM? H).mapM id with e' | ds
    · simp [hm, Except.map] at h
    obtain ⟨os, rfl, hos⟩ := findSomeM_flatMap_ok H Batch.inputs φ _ _ hm
    rw [hin] at hos
    simp [hm, Except.map] at h
    simp [hos, Except.map, ← h, hcombine]

theorem any_isSome_findSome (os : List (Option β)) :
    os.any Option.isSome = (os.findSome? id).isSome := by
  induction os with
  | nil => rfl
  | cons o os ih => cases o <;> simp [ih]

theorem all_isNone_findSome (os : List (Option β)) :
    os.all Option.isNone = (os.findSome? id).isNone := by
  induction os with
  | nil => rfl
  | cons o os ih => cases o <;> simp [ih]

variable (keep : α → Except ε Bool)

theorem anySatisfy_search :
    (∀ e, Strategy.sequential.anySatisfy (ε := ε) p keep = .error e →
      (Strategy.parallel par).anySatisfy (ε := ε) p keep = .ok (.error e)) ∧
    (∀ v, (Strategy.parallel par).anySatisfy (ε := ε) p keep = .ok (.ok v) →
      Strategy.sequential.anySatisfy (ε := ε) p keep = .ok (.ok v)) :=
  parallel_search par p _ (Stage.hitAt p.chain keep) Option.isSome (·.any id)
    (fun b hb => by rw [Batch.anySatisfy_eq_findSomeM, hb])
    fun os => by simp [any_isSome_findSome]

/-- Every output is accepted when no output is refused: the search is for a refusal. -/
theorem allSatisfy_search :
    (∀ e, Strategy.sequential.allSatisfy (ε := ε) p keep = .error e →
      (Strategy.parallel par).allSatisfy (ε := ε) p keep = .ok (.error e)) ∧
    (∀ v, (Strategy.parallel par).allSatisfy (ε := ε) p keep = .ok (.ok v) →
      Strategy.sequential.allSatisfy (ε := ε) p keep = .ok (.ok v)) :=
  parallel_search par p _ (Stage.hitAt p.chain fun y => (!·) <$> keep y) Option.isNone
    (·.all id) (fun b hb => by rw [Batch.allSatisfy_eq_findSomeM, hb])
    fun os => by simp [all_isNone_findSome]

theorem detect_search :
    (∀ e, Strategy.sequential.detect (ε := ε) p keep = .error e →
      (Strategy.parallel par).detect (ε := ε) p keep = .ok (.error e)) ∧
    (∀ v, (Strategy.parallel par).detect (ε := ε) p keep = .ok (.ok v) →
      Strategy.sequential.detect (ε := ε) p keep = .ok (.ok v)) :=
  parallel_search par p _ (Stage.hitAt p.chain keep) id (·.findSome? id)
    (fun b hb => by rw [Batch.detect_eq_findSomeM, hb, id_map])
    fun os => by simp

end Search

end Strategy

end ArrayFlow
