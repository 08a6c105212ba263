import ArrayFlow.Proofs.Pipeline.Walk
import ArrayFlow.Proofs.Pipeline.Split

/-!
# Walking a range of the source

Every terminal operation drives a range `[a, c)` of source indices through a chain of stages
and into a step that may stop the walk (`ArrayFlow.Batch.tryFold`). For a chain of pure stages,
what the walk computes can be said with no word about how the chain is evaluated:

* `ArrayFlow.PureStage.rangeElems` – **the elements of a range** seen through a chain, by
  recursion on its last stage: the source elements of `[a, c)` when there is no stage, those of
  the chain before a last filter that the filter accepts, or the images by a last map of those
  of the chain before it;
* `ArrayFlow.foldUntilM` – **the short-circuiting left fold** of a step over a list;
* `ArrayFlow.PureStage.rangeElems_split` – cut at any index in between, the elements of a range
  are those of its two parts, one after the other.

The main statement, `ArrayFlow.Batch.walk_folds_range_elements`, is that the walk of a range is
the short-circuiting fold of its step over the elements of the range, and that those elements
split at every index in between. The chain may end in the stages `ArrayFlow.Batch.select` and
`ArrayFlow.Batch.collect` add: they are a filter and a map like any other.
-/

namespace ArrayFlow

variable {m : Type → Type} [Monad m] {α β : Type}

/-- **The short-circuiting left fold**: the step is applied to the accumulator and each element
in turn, first to last. The first `.done` ends the fold with its accumulator; a fold that meets
none ends with `.yield` of the last accumulator. -/
def foldUntilM (f : β → α → m (ForInStep β)) : List α → β → m (ForInStep β)
  | [], acc => pure (.yield acc)
  | y :: ys, acc => do
    match ← f acc y with
    | .done b => pure (.done b)
    | .yield b => foldUntilM f ys b

namespace PureStage

/-! ### The elements of a range -/

/-- What a stage makes of the elements the stages before it yield. -/
def applyTo : PureStage α → List α → List α
  | .filter keep, ys => ys.filter keep
  | .map f, ys => ys.map f

/-- **The elements of the range `[a, c)`** of a source seen through a chain: the source
elements there, with each stage applied, first to last, to what the stages before it yield. -/
def rangeElems (source : List α) (stages : List (PureStage α)) (a c : Nat) : List α :=
  stages.foldl (fun ys s => s.applyTo ys) ((source.take c).drop a)

variable (source : List α) (stages : List (PureStage α)) (a c : Nat)

@[simp] theorem rangeElems_nil : rangeElems source [] a c = (source.take c).drop a := rfl

/-- A last filter keeps those of the elements of the chain before it that it accepts. -/
@[simp] theorem rangeElems_concat_filter (keep : α → Bool) :
    rangeElems source (stages ++ [.filter keep]) a c =
      (rangeElems source stages a c).filter keep := by
  simp [rangeElems, applyTo]

/-- A last map replaces the elements of the chain before it by their images. -/
@[simp] theorem rangeElems_concat_map (f : α → α) :
    rangeElems source (stages ++ [.map f]) a c = (rangeElems source stages a c).map f := by
  simp [rangeElems, applyTo]

/-- The pure view of a chain applies its stages first to last. -/
theorem outputs_eq_foldl (xs : List α) :
    outputs stages xs = stages.foldl (fun ys s => s.applyTo ys) xs := by
  induction stages generalizing xs with
  | nil => rfl
  | cons s rest ih => cases s <;> simp [outputs, applyTo, ih]

/-- The elements of a range are the outputs of the chain on the source elements there. -/
theorem rangeElems_eq_outputs :
    rangeElems source stages a c = outputs stages ((source.take c).drop a) :=
  (outputs_eq_foldl stages _).symm

/-- The source elements of `[a, c)` are those of `[a, b)` followed by those of `[b, c)`. -/
theorem drop_take_split {b : Nat} (hab : a ≤ b) (hbc : b ≤ c) :
    (source.take c).drop a = (source.take b).drop a ++ (source.take c).drop b := by
  have hcut := Pipeline.drop_take_append_drop (source.take c) a b hab
  rw [List.take_take, Nat.min_eq_left hbc] at hcut
  exact hcut.symm

/-- **Ranges split**: cut at any index in between, the elements of a range are those of its two
parts, one after the other. -/
theorem rangeElems_split {b : Nat} (hab : a ≤ b) (hbc : b ≤ c) :
    rangeElems source stages a c =
      rangeElems source stages a b ++ rangeElems source stages b c := by
  rw [rangeElems_eq_outputs, rangeElems_eq_outputs, rangeElems_eq_outputs, ← outputs_append,
    drop_take_split source a c hab hbc]

end PureStage

variable [LawfulMonad m]

/-- With no stages, the walk is the short-circuiting fold of its step. -/
theorem Stage.tryFold_nil_eq_foldUntilM (f : β → α → m (ForInStep β)) (ys : List α)
    (acc : β) :
    Stage.tryFold [] f ys acc = foldUntilM f ys acc := by
  induction ys generalizing acc with
  | nil => rfl
  | cons y ys ih =>
    rw [Stage.tryFold_cons, foldUntilM]
    simp only [Stage.pass, pure_bind]
    refine bind_congr fun r => ?_
    cases r with
    | done b => rfl
    | yield b => exact ih b

namespace Batch

/-- **The walk of a range is a short-circuiting fold.** For a batch `[a, c)` over a chain of
pure stages, walking it with any step, from any accumulator, is the short-circuiting left fold
of the step over the elements of the range seen through the chain; and for every index `b`
with `a ≤ b ≤ c`, those elements are the ones of `[a, b)` followed by the ones of `[b, c)`. -/
theorem walk_folds_range_elements (bt : Batch m α) (stages : List (PureStage α))
    (hb : bt.chain = stages.map PureStage.lift) (init : β) (f : β → α → m (ForInStep β)) :
    bt.tryFold init f =
        foldUntilM f (PureStage.rangeElems bt.source stages bt.start bt.stop) init ∧
      ∀ b, bt.start ≤ b → b ≤ bt.stop →
        PureStage.rangeElems bt.source stages bt.start bt.stop =
          PureStage.rangeElems bt.source stages bt.start b ++
            PureStage.rangeElems bt.source stages b bt.stop := by
  refine ⟨?_, fun b hab hbc => PureStage.rangeElems_split bt.source stages _ _ hab hbc⟩
  rw [tryFold_of_lift hb, Stage.tryFold_nil_eq_foldUntilM, PureStage.rangeElems_eq_outputs]
  rfl

/-- The range `[2, 7)` of `3, 1, 4, 1, 5, 9, 2, 6` seen through a selection of the odd elements
and a collection of their tenfolds, summed until the sum passes `55`: the walk stops at
`10 + 50`, before it reaches `90`. -/
theorem walk_of_odd_tens_stops_at_sixty :
    (((⟨[3, 1, 4, 1, 5, 9, 2, 6], [], 2, 7, Nat.le_of_ble_eq_true rfl,
          Nat.le_of_ble_eq_true rfl⟩ : Batch Id Nat).select fun y => pure (y % 2 == 1)).collect
        fun y => pure (10 * y)).tryFold 0
      (fun acc y => pure (if 55 < acc + y then .done (acc + y) else .yield (acc + y))) =
      pure (.done 60) := by
  rw [(walk_folds_range_elements _ [.filter (· % 2 == 1), .map (10 * ·)] rfl _ _).1]
  rfl

end Batch

end ArrayFlow
