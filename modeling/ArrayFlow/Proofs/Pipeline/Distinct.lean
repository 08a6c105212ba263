import ArrayFlow.Proofs.Pipeline.Terminals
import ArrayFlow.Proofs.Store.Repeats

/-!
# Dropping repeats in batches

A strategy drops the repeats of a pipeline's outputs in two rounds: each batch keeps the first
occurrences of its own outputs, and the combination keeps the first occurrences of the batches'
answers put end to end, appending each to an empty store. The first round never loses a first
occurrence of the whole run (`ArrayFlow.Store.firstOccurrences_flatten_map`), so however the source
is cut the answer is the first occurrences of the outputs (`ArrayFlow.Strategy.distinct_ofPure`):
each value of the outputs once, in the order in which the outputs first show it
(`ArrayFlow.Strategy.distinct_keeps_first_occurrences`). Over a store read through no stages this
is the store's own `ArrayFlow.Store.distinct`, buffer and all, since both append the same elements
one by one to an empty store.
-/

namespace ArrayFlow

namespace Strategy

variable {ε : Type} {n : Type → Type} [Monad n] [LawfulMonad n] {α : Type}

section Lawful

variable [BEq α] [LawfulBEq α]

/-- **Dropping repeats with pure stages**: under every strategy, the first occurrences of the
pipeline's outputs, appended one by one to an empty store. -/
theorem distinct_ofPure (s : Strategy) (xs : List α) (stages : List (PureStage α)) :
    (s.distinct (Pipeline.ofPure xs stages) : ExceptT ε n (Except ε (Store α))) =
      pure (.ok (Store.ofAppends
        (Store.firstOccurrences [] (PureStage.outputs stages xs)))) := by
  have htask : ∀ b ∈ s.batches (Pipeline.ofPure (m := ExceptT ε n) xs stages),
      Store.firstOccurrences [] <$> b.toList =
        pure (Store.firstOccurrences [] (PureStage.outputs stages b.inputs)) := by
    intro b hb
    rw [Batch.toList_of_lift (chain_of_mem_batches s _ b hb), map_pure]
  rw [distinct, run_of_pure s _ _ _ htask, pure_bind,
    ← flatMap_outputs_batches (m := ExceptT ε n) s xs stages, List.flatMap_def]
  -- the batches' answers, put end to end, lose no first occurrence of the whole run
  rw [← Store.firstOccurrences_flatten_map, List.map_map]
  rfl

/-- Over a store read through no stages, every strategy drops repeats as the store does. -/
theorem distinct_ofList (s : Strategy) (st : Store α) :
    (s.distinct (Pipeline.ofList st.items) : ExceptT ε n (Except ε (Store α))) =
      pure (.ok st.distinct) := by
  rw [ofList_eq_ofPure, distinct_ofPure]
  rfl

end Lawful

/-- **Repeats are dropped alike under every strategy.** With pure stages, sequential or parallel
with batches of any size, dropping repeats answers the store built by appending, one by one to an
empty store, each value of the pipeline's outputs once, in the order of the values' first
occurrences among the outputs; over a store read through no stages, the answer is the store's own
`ArrayFlow.Store.distinct`, with the same capacity and count of reallocations. -/
theorem distinct_keeps_first_occurrences [DecidableEq α] (s : Strategy) (xs : List α)
    (stages : List (PureStage α)) (st : Store α) :
    let out := PureStage.outputs stages xs
    let kept := Store.firstOccurrences [] out
    (s.distinct (ε := ε) (Pipeline.ofPure (m := ExceptT ε n) xs stages) =
        pure (.ok (Store.ofAppends kept)) ∧
      kept.Nodup ∧ (∀ y, y ∈ kept ↔ y ∈ out) ∧
      kept.Pairwise (fun a b => out.idxOf a < out.idxOf b)) ∧
    s.distinct (ε := ε) (Pipeline.ofList (m := ExceptT ε n) st.items) = pure (.ok st.distinct) := by
  intro out kept
  refine ⟨⟨distinct_ofPure s xs stages, Store.nodup_firstOccurrences [] out, fun y => ?_,
    Store.pairwise_firstOccurrences [] out⟩, distinct_ofList s st⟩
  simp [kept, Store.mem_firstOccurrences]

/-- In batches of two, the outputs `1, 2, 1, 3, 2` without their repeats are `1, 2, 3`. -/
theorem distinct_parallel_pairs :
    (Strategy.parallel ⟨2, by decide, ⟨1, by decide⟩⟩).distinct (ε := String)
        (Pipeline.ofPure (m := ExceptT String Id) [1, 2, 1, 3, 2] []) =
      pure (.ok (Store.ofAppends [1, 2, 3])) :=
  (distinct_keeps_first_occurrences (n := Id) (Strategy.parallel ⟨2, by decide, ⟨1, by decide⟩⟩)
    [1, 2, 1, 3, 2] [] Store.empty).1.1

end Strategy

end ArrayFlow
