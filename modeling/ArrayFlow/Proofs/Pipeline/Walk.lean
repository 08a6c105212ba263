import ArrayFlow.Pipeline.Basic

/-!
# The fused walk

Every operation on a batch is one fused walk of its chain (`ArrayFlow.Stage.tryFold`): an
input goes through every stage and on into the step before the next input is looked at
(`ArrayFlow.Stage.tryFold_cons`). A chain of **pure** stages walked fused hands its step exactly
the outputs of its pure view (`ArrayFlow.PureStage.outputs`), whatever the step does
(`ArrayFlow.PureStage.tryFold_lift`); every terminal operation over pure stages is proved from
that.

With a pure step as well, the walk over the outputs is a plain list function: a left fold
(`ArrayFlow.Stage.tryFold_nil_yield`) or a search that stops at the first hit
(`ArrayFlow.Stage.tryFold_nil_search`). The operations of a batch with a pure chain are then
each the list function they stand for (`ArrayFlow.Batch.anySatisfy_of_lift` and its
siblings).
-/

namespace ArrayFlow

namespace Stage

variable {m : Type → Type} [Monad m] {α β : Type}

/-! ### One input at a time -/

/-- Goes on with `k` from the accumulator a walk has left, unless the walk was stopped. -/
def resume (k : β → m (ForInStep β)) : ForInStep β → m (ForInStep β)
  | .done b => pure (.done b)
  | .yield b => k b

@[simp] theorem resume_done (k : β → m (ForInStep β)) (b : β) :
    resume k (.done b) = pure (.done b) :=
  rfl

@[simp] theorem resume_yield (k : β → m (ForInStep β)) (b : β) : resume k (.yield b) = k b := rfl

/-- One input of the walk: it goes through the chain, and what comes out is handed to the
step, after which the walk goes on unless the step stopped it. -/
theorem tryFold_cons (chain : List (Stage m α)) (step : β → α → m (ForInStep β)) (x : α)
    (xs : List α) (acc : β) :
    tryFold chain step (x :: xs) acc = pass chain x >>= fun o =>
      match o with
      | none => tryFold chain step xs acc
      | some y => step acc y >>= resume (tryFold chain step xs) :=
  rfl

variable [LawfulMonad m]

/-! ### Pure steps over no stages -/

/-- With no stages and a step that never stops, the walk is a left fold. -/
theorem tryFold_nil_yield (f : β → α → β) (ys : List α) (acc : β) :
    tryFold (m := m) [] (fun b y => pure (.yield (f b y))) ys acc =
      pure (.yield (ys.foldl f acc)) := by
  induction ys generalizing acc with
  | nil => rfl
  | cons y ys ih => simp [tryFold_cons, pass, ih]

/-- With no stages and a step that stops at the first element `q` accepts, the walk is the
search for that element: it stops there with `hit y`, and goes through with `miss` when there
is none. -/
theorem tryFold_nil_search (q : α → Bool) (hit : α → β) (miss : β) (ys : List α) :
    tryFold (m := m) [] (fun _ y => if q y then pure (.done (hit y)) else pure (.yield miss)) ys
        miss =
      pure ((ys.find? q).elim (.yield miss) fun y => .done (hit y)) := by
  induction ys with
  | nil => rfl
  | cons y ys ih =>
    cases hy : q y with
    | true => simp [tryFold_cons, pass, hy]
    | false => simp [tryFold_cons, pass, hy, ih]

end Stage

namespace PureStage

variable {m : Type → Type} [Monad m] [LawfulMonad m] {α β : Type}

/-! ### The pure view -/

@[simp] theorem outputs_nil (stages : List (PureStage α)) : outputs stages [] = [] := by
  induction stages with
  | nil => rfl
  | cons s rest ih => cases s <;> simp [outputs, ih]

/-- The outputs of a concatenation are the outputs of its parts, one after the other: a stage
looks at each element on its own. -/
theorem outputs_append (stages : List (PureStage α)) (xs ys : List α) :
    outputs stages (xs ++ ys) = outputs stages xs ++ outputs stages ys := by
  induction stages generalizing xs ys with
  | nil => rfl
  | cons s rest ih => cases s <;> simp [outputs, ih]

/-- The outputs of lists read one after the other are their outputs, one after the other. -/
theorem outputs_flatMap {γ : Type} (stages : List (PureStage α)) (l : List γ) (f : γ → List α) :
    outputs stages (l.flatMap f) = l.flatMap fun c => outputs stages (f c) := by
  induction l with
  | nil => simp
  | cons c l ih => rw [List.flatMap_cons, List.flatMap_cons, outputs_append, ih]

/-- A stage added at the end acts on the outputs of the chain before it. -/
theorem outputs_concat (stages : List (PureStage α)) (s : PureStage α) (xs : List α) :
    outputs (stages ++ [s]) xs = outputs [s] (outputs stages xs) := by
  induction stages generalizing xs with
  | nil => rfl
  | cons t rest ih => cases t <;> simp [outputs, ih]

/-! ### Fusion -/

/-- A pure filter passes an input on to the rest of the chain exactly when it accepts it. -/
@[simp] theorem pass_filter (keep : α → Bool) (rest : List (Stage m α)) (x : α) :
    Stage.pass ((filter keep).lift :: rest) x =
      if keep x then Stage.pass rest x else pure none := by
  cases hx : keep x <;> simp [Stage.pass, lift, hx]

/-- A pure map passes the image of an input on to the rest of the chain. -/
@[simp] theorem pass_map (f : α → α) (rest : List (Stage m α)) (x : α) :
    Stage.pass ((map f).lift :: rest) x = Stage.pass rest (f x) := by
  simp [Stage.pass, lift]

/-- A pure filter in front of a chain lets through, into the rest of the walk, exactly the
inputs it accepts. -/
theorem tryFold_filter (keep : α → Bool) (rest : List (Stage m α))
    (step : β → α → m (ForInStep β)) (xs : List α) (acc : β) :
    Stage.tryFold ((filter keep).lift :: rest) step xs acc =
      Stage.tryFold rest step (xs.filter keep) acc := by
  induction xs generalizing acc with
  | nil => rfl
  | cons x xs ih =>
    have ih' : Stage.tryFold ((filter keep).lift :: rest) step xs =
        Stage.tryFold rest step (xs.filter keep) := funext ih
    by_cases hx : keep x
    · simp [Stage.tryFold_cons, hx, ih']
    · simp [Stage.tryFold_cons, hx, ih']

/-- A pure map in front of a chain hands the rest of the walk the images of the inputs. -/
theorem tryFold_map (f : α → α) (rest : List (Stage m α)) (step : β → α → m (ForInStep β))
    (xs : List α) (acc : β) :
    Stage.tryFold ((map f).lift :: rest) step xs acc = Stage.tryFold rest step (xs.map f) acc := by
  induction xs generalizing acc with
  | nil => rfl
  | cons x xs ih =>
    have ih' : Stage.tryFold ((map f).lift :: rest) step xs =
        Stage.tryFold rest step (xs.map f) := funext ih
    simp [Stage.tryFold_cons, ih']

/-- **Fusion**: walking a pure chain fused over some inputs hands the step exactly the outputs
of the chain's pure view, in order. The step is arbitrary: it may have effects, fail, or stop
the walk. -/
theorem tryFold_lift (stages : List (PureStage α)) (step : β → α → m (ForInStep β))
    (xs : List α) (acc : β) :
    Stage.tryFold (stages.map lift) step xs acc =
      Stage.tryFold [] step (outputs stages xs) acc := by
  induction stages generalizing xs with
  | nil => rfl
  | cons s rest ih =>
    cases s with
    | filter keep => rw [List.map_cons, tryFold_filter, ih]; rfl
    | map f => rw [List.map_cons, tryFold_map, ih]; rfl

end PureStage

/-! ### Batches with a pure chain -/

/-- Consing along a left fold reverses. -/
theorem foldl_flip_cons {α : Type} (ys acc : List α) :
    ys.foldl (fun acc y => y :: acc) acc = ys.reverse ++ acc := by
  induction ys generalizing acc with
  | nil => rfl
  | cons y ys ih => simp [ih]

namespace Batch

variable {m : Type → Type} [Monad m] [LawfulMonad m] {α β : Type}
variable {b : Batch m α} {stages : List (PureStage α)}

/-- A batch whose chain is pure walks the outputs of its inputs. -/
theorem tryFold_of_lift (h : b.chain = stages.map PureStage.lift) (init : β)
    (step : β → α → m (ForInStep β)) :
    b.tryFold init step = Stage.tryFold [] step (PureStage.outputs stages b.inputs) init := by
  rw [Batch.tryFold, h, PureStage.tryFold_lift]

/-- **Folding** a batch with a pure chain by a pure step is the left fold of its outputs. -/
theorem fold_of_lift (h : b.chain = stages.map PureStage.lift) (init : β) (f : β → α → β) :
    b.fold init (fun acc y => pure (f acc y)) =
      pure ((PureStage.outputs stages b.inputs).foldl f init) := by
  simp only [Batch.fold, pure_bind, tryFold_of_lift h, Stage.tryFold_nil_yield]

/-- Whether some output of a batch with a pure chain is accepted by a pure predicate. -/
theorem anySatisfy_of_lift (h : b.chain = stages.map PureStage.lift) (q : α → Bool) :
    b.anySatisfy (fun y => pure (q y)) = pure ((PureStage.outputs stages b.inputs).any q) := by
  simp only [Batch.anySatisfy, pure_bind, tryFold_of_lift h, Stage.tryFold_nil_search]
  cases hf : (PureStage.outputs stages b.inputs).find? q with
  | none =>
    have hany : (PureStage.outputs stages b.inputs).any q = false :=
      List.any_eq_false.mpr fun x hx => by simpa using List.find?_eq_none.mp hf x hx
    simp [hany]
  | some y =>
    have hany : (PureStage.outputs stages b.inputs).any q = true :=
      List.any_eq_true.mpr ⟨y, List.mem_of_find?_eq_some hf, List.find?_some hf⟩
    simp [hany]

/-- Whether every output of a batch with a pure chain is accepted by a pure predicate. -/
theorem allSatisfy_of_lift (h : b.chain = stages.map PureStage.lift) (q : α → Bool) :
    b.allSatisfy (fun y => pure (q y)) = pure ((PureStage.outputs stages b.inputs).all q) := by
  -- the walk searches for the first output that is refused
  have hstep : (fun (_ : Bool) y => if q y then pure (.yield true) else pure (.done false)) =
      fun _ y =>
        if !q y then (pure (.done false) : m (ForInStep Bool)) else pure (.yield true) := by
    funext _ y
    cases q y <;> rfl
  simp only [Batch.allSatisfy, pure_bind, tryFold_of_lift h, hstep, Stage.tryFold_nil_search]
  cases hf : (PureStage.outputs stages b.inputs).find? (fun y => !q y) with
  | none =>
    have hall : (PureStage.outputs stages b.inputs).all q = true :=
      List.all_eq_true.mpr fun x hx => by simpa using List.find?_eq_none.mp hf x hx
    simp [hall]
  | some y =>
    have hall : (PureStage.outputs stages b.inputs).all q = false :=
      List.all_eq_false.mpr ⟨y, List.mem_of_find?_eq_some hf, by simpa using List.find?_some hf⟩
    simp [hall]

/-- The first output of a batch with a pure chain that a pure predicate accepts. -/
theorem detect_of_lift (h : b.chain = stages.map PureStage.lift) (q : α → Bool) :
    b.detect (fun y => pure (q y)) = pure ((PureStage.outputs stages b.inputs).find? q) := by
  simp only [Batch.detect, pure_bind, tryFold_of_lift h, Stage.tryFold_nil_search]
  cases (PureStage.outputs stages b.inputs).find? q <;> simp

/-- **The outputs** of a batch with a pure chain. -/
theorem toList_of_lift (h : b.chain = stages.map PureStage.lift) :
    b.toList = pure (PureStage.outputs stages b.inputs) := by
  simp only [Batch.toList]
  rw [fold_of_lift h, pure_bind, foldl_flip_cons, List.append_nil, List.reverse_reverse]

/-- The outputs of a batch with a pure chain, seen through one more pure filter. -/
theorem toList_select_of_lift (h : b.chain = stages.map PureStage.lift) (q : α → Bool) :
    (b.select fun y => pure (q y)).toList =
      pure ((PureStage.outputs stages b.inputs).filter q) := by
  have hc : (b.select fun y => pure (q y)).chain =
      (stages ++ [PureStage.filter q]).map PureStage.lift := by
    simp [Batch.select, h, PureStage.lift]
  rw [toList_of_lift hc, PureStage.outputs_concat]
  rfl

/-- The outputs of a batch with a pure chain, seen through one more pure map. -/
theorem toList_collect_of_lift (h : b.chain = stages.map PureStage.lift) (f : α → α) :
    (b.collect fun y => pure (f y)).toList =
      pure ((PureStage.outputs stages b.inputs).map f) := by
  have hc : (b.collect fun y => pure (f y)).chain =
      (stages ++ [PureStage.map f]).map PureStage.lift := by
    simp [Batch.collect, h, PureStage.lift]
  rw [toList_of_lift hc, PureStage.outputs_concat]
  rfl

end Batch

end ArrayFlow
