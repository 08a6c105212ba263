import ArrayFlow.Pipeline.Strategy
import ArrayFlow.Proofs.Pipeline.Split
import ArrayFlow.Proofs.Pipeline.Walk
import ArrayFlow.Proofs.Store.Room
import ArrayFlow.Proofs.Store.Queries

/-!
# Terminal operations over pure stages

When the stages of a pipeline and the functions given to a terminal operation are **pure** –
they answer at once and never fail – the strategy makes no difference. Sequential, or parallel
with batches of any size, every terminal operation answers what the matching list function gives
on the pipeline's outputs (`ArrayFlow.Strategy.terminals_of_pure`), and over a store read through
no stages it agrees with the store's own query.

Three facts carry this, for every way of cutting the source:

* the batches of a strategy read the source one after the other
  (`ArrayFlow.Strategy.flatMap_inputs_batches`), so their outputs, one after the other, are the
  pipeline's outputs (`ArrayFlow.Strategy.flatMap_outputs_batches`);
* a task that answers at once on each batch is answered with its answers in batch order
  (`ArrayFlow.Strategy.run_of_pure`);
* each combination of the per-batch answers – disjunction, conjunction, the first find, the sum,
  the concatenation into one reserved buffer (`ArrayFlow.Strategy.concatenate_eq`) – is the
  answer on the concatenation of the batches' outputs.

The operations run in a monad of exceptions over any lawful monad, the monad of evaluation
among them.
-/

namespace ArrayFlow

/-- The pipeline that reads `xs` through pure stages. -/
def Pipeline.ofPure {m : Type → Type} [Pure m] {α : Type} (xs : List α)
    (stages : List (PureStage α)) : Pipeline m α :=
  ⟨xs, stages.map PureStage.lift⟩

/-- A monadic map whose function answers at once on every element answers at once. -/
theorem mapM_of_pure {m : Type → Type} [Monad m] [LawfulMonad m] {α β : Type} {f : α → m β}
    {g : α → β} : ∀ (l : List α), (∀ x ∈ l, f x = pure (g x)) → l.mapM f = pure (l.map g)
  | [], _ => rfl
  | x :: xs, h => by
    rw [List.mapM_cons, h x (by simp), pure_bind,
      mapM_of_pure xs fun y hy => h y (by simp [hy]), pure_bind]
    rfl

/-- Catching the failure of a computation that answers at once changes nothing. -/
theorem tryCatchThe_pure {ε : Type} {n : Type → Type} [Monad n] [LawfulMonad n] {β : Type}
    (a : β) (h : ε → ExceptT ε n β) : tryCatchThe ε (pure a : ExceptT ε n β) h = pure a := by
  apply ExceptT.ext
  show (tryCatch (pure a) h : ExceptT ε n β).run = _
  rw [ExceptT.run_tryCatch]
  simp

namespace Batch

variable {m : Type → Type} [Monad m] [LawfulMonad m] {α : Type}

/-- The number of outputs of a batch with a pure chain that a pure predicate accepts. -/
theorem count_of_lift {b : Batch m α} {stages : List (PureStage α)}
    (h : b.chain = stages.map PureStage.lift) (q : α → Bool) :
    b.count (fun y => pure (q y)) = pure ((PureStage.outputs stages b.inputs).countP q) := by
  simp only [Batch.count, pure_bind]
  rw [fold_of_lift h, foldl_count, Nat.zero_add]

end Batch

namespace Strategy

variable {α : Type}

/-! ### The batches of a strategy -/

section Batches

variable {m : Type → Type}

/-- Every batch of a strategy reads the source through the pipeline's chain. -/
theorem chain_of_mem_batches (s : Strategy) (p : Pipeline m α) :
    ∀ b ∈ s.batches p, b.chain = p.chain := by
  cases s with
  | sequential => simp [batches, Pipeline.whole]
  | parallel par => exact fun b hb => (p.chain_of_mem_splitFrom _ _ 0 b hb).2

/-- **The batches of a strategy read the source**, one after the other. -/
theorem flatMap_inputs_batches (s : Strategy) (p : Pipeline m α) :
    (s.batches p).flatMap Batch.inputs = p.source := by
  cases s with
  | sequential => simp [batches, Pipeline.inputs_whole]
  | parallel par =>
    simpa [batches, Pipeline.split] using
      p.flatMap_inputs_splitFrom par.batchSize par.batchSize_pos 0

/-- The outputs of the batches, one after the other, are the pipeline's outputs. -/
theorem flatMap_outputs_batches [Pure m] (s : Strategy) (xs : List α)
    (stages : List (PureStage α)) :
    (s.batches (Pipeline.ofPure (m := m) xs stages)).flatMap
        (fun b => PureStage.outputs stages b.inputs) = PureStage.outputs stages xs := by
  rw [← PureStage.outputs_flatMap, flatMap_inputs_batches]
  rfl

end Batches

/-! ### Concatenating the parts -/

/-- Parts that fit in the buffer are appended into it as it is. -/
theorem foldl_appendAll_exact (parts : List (List α)) (t : Store α)
    (h : t.items.length + parts.flatten.length ≤ t.capacity) :
    parts.foldl (fun acc part => acc.appendAll (.exact part)) t =
      ⟨t.items ++ parts.flatten, t.capacity, t.reallocations, by simpa using h⟩ := by
  induction parts generalizing t with
  | nil => ext <;> simp
  | cons part parts ih =>
    have hp : t.items.length + part.length ≤ t.capacity := by
      simp only [List.flatten_cons, List.length_append] at h
      omega
    rw [List.foldl_cons, Store.appendAll_exact_of_le t part hp, ih]
    · ext <;> simp
    · simp only [List.flatten_cons, List.length_append] at h ⊢
      omega

/-- **The concatenation of the parts** is a store whose buffer holds exactly the parts, one after
the other, and was never replaced. -/
theorem concatenate_eq (parts : List (List α)) :
    concatenate parts = Store.ofList parts.flatten := by
  have htotal : (parts.map List.length).foldl (· + ·) 0 = parts.flatten.length := by
    rw [← List.sum_eq_foldl_nat, List.length_flatten]
  rw [concatenate, htotal, foldl_appendAll_exact parts _ (by simp [Store.withCapacity])]
  ext <;> simp [Store.ofList, Store.withCapacity]

/-! ### Terminal operations with pure functions -/

variable {ε : Type} {n : Type → Type} [Monad n] [LawfulMonad n] {β : Type}

/-- **A task that answers at once on every batch** is answered, under either strategy, with
its answers in batch order. -/
theorem run_of_pure (s : Strategy) (p : Pipeline (ExceptT ε n) α)
    (task : Batch (ExceptT ε n) α → ExceptT ε n β) (g : Batch (ExceptT ε n) α → β)
    (h : ∀ b ∈ s.batches p, task b = pure (g b)) :
    (s.run p task : ExceptT ε n (Except ε (List β))) = pure (.ok ((s.batches p).map g)) := by
  cases s with
  | sequential =>
    have hw : task p.whole = pure (g p.whole) := h p.whole (by simp [batches])
    simp [run, hw, batches]
  | parallel par =>
    have hcatch : ∀ b ∈ p.split par.batchSize par.batchSize_pos,
        tryCatchThe ε (Except.ok <$> task b) (fun e => pure (Except.error e)) =
          pure (Except.ok (g b)) := by
      intro b hb
      rw [h b hb, map_pure, tryCatchThe_pure]
    rw [run, mapM_of_pure _ hcatch, pure_bind, List.mapM_map]
    exact congrArg pure List.mapM_pure

variable (s : Strategy) (xs : List α) (stages : List (PureStage α))

/-- Whether some output is accepted: the disjunction over the batches. -/
theorem anySatisfy_ofPure (q : α → Bool) :
    (s.anySatisfy (Pipeline.ofPure xs stages) fun y => pure (q y) : ExceptT ε n (Except ε Bool)) =
      pure (.ok ((PureStage.outputs stages xs).any q)) := by
  rw [anySatisfy, run_of_pure s _ _ (fun b => (PureStage.outputs stages b.inputs).any q)
    fun b hb => Batch.anySatisfy_of_lift (chain_of_mem_batches s _ b hb) q, pure_bind,
    ← flatMap_outputs_batches (m := ExceptT ε n) s xs stages]
  simp [Except.map, List.any_flatMap, List.any_map]

/-- Whether every output is accepted: the conjunction over the batches. -/
theorem allSatisfy_ofPure (q : α → Bool) :
    (s.allSatisfy (Pipeline.ofPure xs stages) fun y => pure (q y) : ExceptT ε n (Except ε Bool)) =
      pure (.ok ((PureStage.outputs stages xs).all q)) := by
  rw [allSatisfy, run_of_pure s _ _ (fun b => (PureStage.outputs stages b.inputs).all q)
    fun b hb => Batch.allSatisfy_of_lift (chain_of_mem_batches s _ b hb) q, pure_bind,
    ← flatMap_outputs_batches (m := ExceptT ε n) s xs stages]
  simp [Except.map, List.all_flatMap, List.all_map]

/-- The first accepted output: the find of the lowest batch that has one. -/
theorem detect_ofPure (q : α → Bool) :
    (s.detect (Pipeline.ofPure xs stages) fun y => pure (q y) :
      ExceptT ε n (Except ε (Option α))) =
      pure (.ok ((PureStage.outputs stages xs).find? q)) := by
  rw [detect, run_of_pure s _ _ (fun b => (PureStage.outputs stages b.inputs).find? q)
    fun b hb => Batch.detect_of_lift (chain_of_mem_batches s _ b hb) q, pure_bind,
    ← flatMap_outputs_batches (m := ExceptT ε n) s xs stages]
  simp [Except.map, List.findSome?_map]

/-- The number of accepted outputs: the sum over the batches. -/
theorem count_ofPure (q : α → Bool) :
    (s.count (Pipeline.ofPure xs stages) fun y => pure (q y) : ExceptT ε n (Except ε Nat)) =
      pure (.ok ((PureStage.outputs stages xs).countP q)) := by
  rw [count, run_of_pure s _ _ (fun b => (PureStage.outputs stages b.inputs).countP q)
    fun b hb => Batch.count_of_lift (chain_of_mem_batches s _ b hb) q, pure_bind,
    ← flatMap_outputs_batches (m := ExceptT ε n) s xs stages, List.countP_flatMap,
    List.sum_eq_foldl_nat]
  rfl

/-- The accepted outputs, in a buffer that holds exactly them. -/
theorem select_ofPure (q : α → Bool) :
    (s.select (Pipeline.ofPure xs stages) fun y => pure (q y) :
      ExceptT ε n (Except ε (Store α))) =
      pure (.ok (Store.ofList ((PureStage.outputs stages xs).filter q))) := by
  rw [select, run_of_pure s _ _ (fun b => (PureStage.outputs stages b.inputs).filter q)
    fun b hb => Batch.toList_select_of_lift (chain_of_mem_batches s _ b hb) q, pure_bind,
    ← flatMap_outputs_batches (m := ExceptT ε n) s xs stages, List.filter_flatMap]
  simp [Except.map, concatenate_eq, List.flatMap_def]

/-- The images of the outputs, in a buffer that holds exactly them. -/
theorem collect_ofPure (f : α → α) :
    (s.collect (Pipeline.ofPure xs stages) fun y => pure (f y) :
      ExceptT ε n (Except ε (Store α))) =
      pure (.ok (Store.ofList ((PureStage.outputs stages xs).map f))) := by
  rw [collect, run_of_pure s _ _ (fun b => (PureStage.outputs stages b.inputs).map f)
    fun b hb => Batch.toList_collect_of_lift (chain_of_mem_batches s _ b hb) f, pure_bind,
    ← flatMap_outputs_batches (m := ExceptT ε n) s xs stages, List.map_flatMap]
  simp [Except.map, concatenate_eq, List.flatMap_def]

/-! ### A store read through no stages

The pipeline of a store's elements has no stages, so its outputs are the elements, and each
terminal operation answers what the store's own query answers: the same value, or for the two
queries that build a store, the same elements (the store's own selection grows its buffer as it
appends, where the pipeline reserves it once). -/

section OfStore

variable (st : Store α)

theorem ofList_eq_ofPure {m : Type → Type} [Pure m] (xs : List α) :
    (Pipeline.ofList xs : Pipeline m α) = Pipeline.ofPure xs [] := rfl

theorem anySatisfy_ofList (q : α → Bool) :
    s.anySatisfy (ε := ε) (Pipeline.ofList st.items) (fun y => pure (q y)) =
      Except.ok <$> st.anySatisfyM (fun y => (pure (q y) : ExceptT ε n Bool)) := by
  rw [ofList_eq_ofPure, anySatisfy_ofPure, Store.anySatisfyM_pure, map_pure]
  rfl

theorem allSatisfy_ofList (q : α → Bool) :
    s.allSatisfy (ε := ε) (Pipeline.ofList st.items) (fun y => pure (q y)) =
      Except.ok <$> st.allSatisfyM (fun y => (pure (q y) : ExceptT ε n Bool)) := by
  rw [ofList_eq_ofPure, allSatisfy_ofPure, Store.allSatisfyM_pure, map_pure]
  rfl

theorem detect_ofList (q : α → Bool) :
    s.detect (ε := ε) (Pipeline.ofList st.items) (fun y => pure (q y)) =
      Except.ok <$> st.detectM (fun y => (pure (q y) : ExceptT ε n Bool)) := by
  rw [ofList_eq_ofPure, detect_ofPure, Store.detectM_pure, map_pure]
  rfl

theorem count_ofList (q : α → Bool) :
    s.count (ε := ε) (Pipeline.ofList st.items) (fun y => pure (q y)) =
      Except.ok <$> st.countM (fun y => (pure (q y) : ExceptT ε n Bool)) := by
  rw [ofList_eq_ofPure, count_ofPure, Store.countM_pure, map_pure]
  rfl

theorem select_ofList (q : α → Bool) :
    Except.map Store.items <$>
        s.select (ε := ε) (Pipeline.ofList st.items) (fun y => pure (q y)) =
      (fun t => .ok t.items) <$> st.selectM (fun y => (pure (q y) : ExceptT ε n Bool)) := by
  rw [ofList_eq_ofPure, select_ofPure, Store.selectM_pure, map_pure, map_pure]
  simp [Except.map, PureStage.outputs]

theorem collect_ofList (f : α → α) :
    Except.map Store.items <$>
        s.collect (ε := ε) (Pipeline.ofList st.items) (fun y => pure (f y)) =
      (fun t => .ok t.items) <$> st.collectM (fun y => (pure (f y) : ExceptT ε n α)) := by
  rw [ofList_eq_ofPure, collect_ofPure, Store.collectM_pure, map_pure, map_pure]
  simp [Except.map, PureStage.outputs]

end OfStore

/-- **Pure terminal operations do not depend on the strategy.** Under every strategy, each
terminal operation over a pipeline of pure stages, given pure functions, answers the list
function it stands for on the pipeline's outputs, the selected elements and the images in a
buffer of exactly their number that was never replaced; and over a store read through no stages
it answers what the store's own query answers. -/
theorem terminals_of_pure (s : Strategy) (xs : List α) (stages : List (PureStage α))
    (q : α → Bool) (f : α → α) (st : Store α) :
    let p : Pipeline (ExceptT ε n) α := Pipeline.ofPure xs stages
    let r : Pipeline (ExceptT ε n) α := Pipeline.ofList st.items
    let out := PureStage.outputs stages xs
    let keep : α → ExceptT ε n Bool := fun y => pure (q y)
    let image : α → ExceptT ε n α := fun y => pure (f y)
    (s.anySatisfy (ε := ε) p keep = pure (.ok (out.any q)) ∧
      s.allSatisfy (ε := ε) p keep = pure (.ok (out.all q)) ∧
      s.detect (ε := ε) p keep = pure (.ok (out.find? q)) ∧
      s.count (ε := ε) p keep = pure (.ok (out.countP q)) ∧
      s.select (ε := ε) p keep = pure (.ok (Store.ofList (out.filter q))) ∧
      s.collect (ε := ε) p image = pure (.ok (Store.ofList (out.map f)))) ∧
    (s.anySatisfy (ε := ε) r keep = Except.ok <$> st.anySatisfyM keep ∧
      s.allSatisfy (ε := ε) r keep = Except.ok <$> st.allSatisfyM keep ∧
      s.detect (ε := ε) r keep = Except.ok <$> st.detectM keep ∧
      s.count (ε := ε) r keep = Except.ok <$> st.countM keep ∧
      Except.map Store.items <$> s.select (ε := ε) r keep =
        (fun t => .ok t.items) <$> st.selectM keep ∧
      Except.map Store.items <$> s.collect (ε := ε) r image =
        (fun t => .ok t.items) <$> st.collectM image) := by
  intro p r out keep image
  exact ⟨⟨anySatisfy_ofPure s xs stages q, allSatisfy_ofPure s xs stages q,
      detect_ofPure s xs stages q, count_ofPure s xs stages q, select_ofPure s xs stages q,
      collect_ofPure s xs stages f⟩,
    ⟨anySatisfy_ofList s st q, allSatisfy_ofList s st q, detect_ofList s st q,
      count_ofList s st q, select_ofList s st q, collect_ofList s st f⟩⟩

/-- Counting the even outputs above two of four elements in batches of two: one. -/
theorem count_parallel_pairs :
    (Strategy.parallel ⟨2, by decide, ⟨1, by decide⟩⟩).count (ε := String)
        (Pipeline.ofPure (m := ExceptT String Id) [1, 2, 3, 4] [.filter fun y => y % 2 == 0])
        (fun y => pure (decide (2 < y))) =
      pure (.ok 1) :=
  (terminals_of_pure (n := Id) (Strategy.parallel ⟨2, by decide, ⟨1, by decide⟩⟩) [1, 2, 3, 4]
    [.filter fun y => y % 2 == 0] (fun y => decide (2 < y)) id Store.empty).1.2.2.2.1

end Strategy

end ArrayFlow
