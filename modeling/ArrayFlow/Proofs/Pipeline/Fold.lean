import ArrayFlow.Proofs.Pipeline.Terminals

/-!
# Folding in batches

A fold under a strategy folds each batch from an identity produced inside the batch's task,
then merges the batch results left to right; with no batches at all the identity is produced
once more. Given pure functions, and an identity that is a value:

* `ArrayFlow.Strategy.fold_ofPure` – every strategy answers the left reduction, by the merge, of
  the folds of its batches' outputs, and the identity when it has no batch;
* `ArrayFlow.Strategy.fold_sequential_ofPure` – the sequential strategy, with its one batch,
  answers the left fold of the pipeline's outputs;
* `ArrayFlow.Strategy.fold_ofPure_of_hom` – when merging the folds of two lists is folding their
  concatenation, every strategy answers that left fold, whatever the batch size; over a store
  read through no stages, it is the store's own fold.

The merge condition is what makes the cut invisible: the folds of the batches, merged left to
right, are the fold of the batches' outputs put end to end (`ArrayFlow.foldl_merge_folds`),
and those are the pipeline's outputs.
-/

namespace ArrayFlow

/-- **Merging folds is folding the concatenation**, part after part: when merging the folds of
two lists is folding their concatenation, merging the folds of any parts from the left is
folding the parts put end to end. -/
theorem foldl_merge_folds {α β : Type} (f : β → α → β) (init : β) (r : β → β → β)
    (hr : ∀ as bs : List α, r (as.foldl f init) (bs.foldl f init) = (as ++ bs).foldl f init) :
    ∀ (c : List α) (cs : List (List α)),
      (cs.map (·.foldl f init)).foldl r (c.foldl f init) = (c :: cs).flatten.foldl f init
  | c, [] => by simp
  | c, c' :: cs => by
    -- the first two parts merge into one, and the rest is merged onto it
    rw [List.map_cons, List.foldl_cons, hr, foldl_merge_folds f init r hr (c ++ c') cs]
    simp

namespace Strategy

variable {ε : Type} {n : Type → Type} [Monad n] [LawfulMonad n] {α β : Type}

section Pure

variable (s : Strategy) (xs : List α) (stages : List (PureStage α)) (init : β)
  (f : β → α → β) (r : β → β → β)

/-- **A fold with pure functions**: the folds of the batches' outputs, each from `init`,
merged from the left; `init` when there is no batch. -/
theorem fold_ofPure :
    s.fold (m := ExceptT ε n) (ε := ε) (Pipeline.ofPure xs stages) (pure init)
        (fun acc y => pure (f acc y)) (fun a b => pure (r a b)) =
      pure (.ok (match (s.batches (Pipeline.ofPure (m := ExceptT ε n) xs stages)).map
          fun b => (PureStage.outputs stages b.inputs).foldl f init with
        | [] => init
        | v :: vs => vs.foldl r v)) := by
  -- every batch's task folds its outputs from the identity
  have htask : ∀ b ∈ s.batches (Pipeline.ofPure (m := ExceptT ε n) xs stages),
      (do (b.fold (← pure init) fun acc y => pure (f acc y) : ExceptT ε n β)) =
        pure ((PureStage.outputs stages b.inputs).foldl f init) := by
    intro b hb
    rw [pure_bind, Batch.fold_of_lift (chain_of_mem_batches s _ b hb) init f]
  rw [fold, run_of_pure s _ _ (fun b => (PureStage.outputs stages b.inputs).foldl f init) htask,
    pure_bind]
  generalize (s.batches _).map _ = vals
  cases vals with
  | nil => exact map_pure _ _
  | cons v vs => simp [List.foldlM_pure]

/-- The sequential strategy folds its one batch, the whole source. -/
theorem fold_sequential_ofPure :
    Strategy.sequential.fold (m := ExceptT ε n) (ε := ε) (Pipeline.ofPure xs stages) (pure init)
        (fun acc y => pure (f acc y)) (fun a b => pure (r a b)) =
      pure (.ok ((PureStage.outputs stages xs).foldl f init)) := by
  rw [fold_ofPure]
  simp [batches, Pipeline.inputs_whole, Pipeline.ofPure]

/-- A parallel fold over an empty source has no batch, and answers `init`. -/
theorem fold_parallel_ofPure_nil (par : Parallel) :
    (Strategy.parallel par).fold (m := ExceptT ε n) (ε := ε) (Pipeline.ofPure [] stages)
        (pure init) (fun acc y => pure (f acc y)) (fun a b => pure (r a b)) =
      pure (.ok init) := by
  rw [fold_ofPure]
  simp [batches, Pipeline.split, Pipeline.splitFrom, Pipeline.ofPure]

/-- **A fold whose merge agrees with folding** answers the left fold of the pipeline's outputs
under every strategy. -/
theorem fold_ofPure_of_hom
    (hr : ∀ as bs : List α, r (as.foldl f init) (bs.foldl f init) = (as ++ bs).foldl f init) :
    s.fold (m := ExceptT ε n) (ε := ε) (Pipeline.ofPure xs stages) (pure init)
        (fun acc y => pure (f acc y)) (fun a b => pure (r a b)) =
      pure (.ok ((PureStage.outputs stages xs).foldl f init)) := by
  rw [fold_ofPure, ← flatMap_outputs_batches (m := ExceptT ε n) s xs stages]
  -- the batch results are the folds of the batches' outputs, merged part after part
  cases s.batches (Pipeline.ofPure (m := ExceptT ε n) xs stages) with
  | nil => rfl
  | cons b bs =>
    simp only [List.map_cons, List.flatMap_cons]
    rw [List.flatMap_def, ← List.flatten_cons, ← foldl_merge_folds f init r hr,
      List.map_map]
    rfl

end Pure

/-- Over a store read through no stages, a fold whose merge agrees with folding answers the
store's own fold, under every strategy. -/
theorem fold_ofList_of_hom (s : Strategy) (st : Store α) (init : β) (f : β → α → β)
    (r : β → β → β)
    (hr : ∀ as bs : List α, r (as.foldl f init) (bs.foldl f init) = (as ++ bs).foldl f init) :
    s.fold (m := ExceptT ε n) (ε := ε) (Pipeline.ofList st.items) (pure init)
        (fun acc y => pure (f acc y)) (fun a b => pure (r a b)) =
      Except.ok <$> st.injectIntoM init (fun acc y => (pure (f acc y) : ExceptT ε n β)) := by
  rw [ofList_eq_ofPure, fold_ofPure_of_hom s _ _ init f r hr, Store.injectIntoM_pure, map_pure]
  rfl

/-- **Folding in batches.** A parallel fold with pure functions answers the left reduction, by
the merge, of the folds of its batches' outputs, and the identity over an empty source; the
sequential fold answers the left fold of the outputs. When merging the folds of two lists is
folding their concatenation, the two strategies agree, and over a store read through no stages
both answer the store's own fold. -/
theorem fold_in_batches (par : Parallel) (xs : List α) (stages : List (PureStage α)) (init : β)
    (f : β → α → β) (r : β → β → β) :
    let p : Pipeline (ExceptT ε n) α := Pipeline.ofPure xs stages
    let step : β → α → ExceptT ε n β := fun acc y => pure (f acc y)
    let merge : β → β → ExceptT ε n β := fun a b => pure (r a b)
    ((Strategy.parallel par).fold (ε := ε) p (pure init) step merge =
        pure (.ok (match (p.split par.batchSize par.batchSize_pos).map
            (fun b => (PureStage.outputs stages b.inputs).foldl f init) with
          | [] => init
          | v :: vs => vs.foldl r v)) ∧
      (xs = [] →
        (Strategy.parallel par).fold (ε := ε) p (pure init) step merge = pure (.ok init)) ∧
      Strategy.sequential.fold (ε := ε) p (pure init) step merge =
        pure (.ok ((PureStage.outputs stages xs).foldl f init))) ∧
    ((∀ as bs : List α, r (as.foldl f init) (bs.foldl f init) = (as ++ bs).foldl f init) →
      (Strategy.parallel par).fold (ε := ε) p (pure init) step merge =
          Strategy.sequential.fold (ε := ε) p (pure init) step merge ∧
        ∀ st : Store α,
          (Strategy.parallel par).fold (ε := ε) (Pipeline.ofList st.items) (pure init) step
              merge = Except.ok <$> st.injectIntoM init step ∧
            Strategy.sequential.fold (ε := ε) (Pipeline.ofList st.items) (pure init) step
              merge = Except.ok <$> st.injectIntoM init step) := by
  intro p step merge
  refine ⟨⟨fold_ofPure (.parallel par) xs stages init f r, ?_,
    fold_sequential_ofPure xs stages init f r⟩, fun hr => ⟨?_, fun st => ⟨?_, ?_⟩⟩⟩
  · rintro rfl
    exact fold_parallel_ofPure_nil stages init f r par
  · rw [fold_ofPure_of_hom _ xs stages init f r hr, fold_ofPure_of_hom _ xs stages init f r hr]
  · exact fold_ofList_of_hom (.parallel par) st init f r hr
  · exact fold_ofList_of_hom .sequential st init f r hr

/-- Summing five elements in batches of two and adding up the batch sums is summing them. -/
theorem sum_in_pairs :
    (Strategy.parallel ⟨2, by decide, ⟨1, by decide⟩⟩).fold (m := ExceptT String Id)
        (ε := String) (Pipeline.ofPure [1, 2, 3, 4, 5] []) (pure 0) (fun acc y => pure (acc + y))
        (fun a b => pure (a + b)) =
      Strategy.sequential.fold (m := ExceptT String Id) (ε := String)
        (Pipeline.ofPure [1, 2, 3, 4, 5] []) (pure 0) (fun acc y => pure (acc + y))
        (fun a b => pure (a + b)) :=
  ((fold_in_batches (n := Id) ⟨2, by decide, ⟨1, by decide⟩⟩ [1, 2, 3, 4, 5] [] 0
    (· + ·) (· + ·)).2 fun as bs => by simp only [← List.sum_eq_foldl_nat, List.sum_append]).1

end Strategy

end ArrayFlow
