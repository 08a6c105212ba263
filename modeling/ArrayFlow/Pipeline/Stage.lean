/-!
# Stages and chains

A **stage** is one step a pipeline applies to the elements flowing through it: a *filter* that
lets an element pass or drops it, or a *map* that replaces it. A **chain** is a list of stages,
applied first to last. Stages run in a monad `m`, so that calls can be counted or can stop the
run.

Chains are evaluated *fused*: each element travels through every stage of the chain, and on to
whatever consumes it, before the next element is looked at.

* `ArrayFlow.Stage.pass` – one element through a chain: `none` if a filter drops it;
* `ArrayFlow.Stage.tryFold` – a chain's outputs fed, as they come, into a step that may stop
  early (`ForInStep.done`);
* `ArrayFlow.Stage.outputs` – the **pure view** of a chain: the list of outputs of a list of
  inputs when stages are plain functions.
-/

namespace ArrayFlow

/-- **The shape of a link** of a pipeline: its source, or a stage of one of the two kinds. -/
inductive StageKind where
  | root
  | filter
  | map
  deriving DecidableEq, Repr

/-- The name under which a shape is listed. -/
def StageKind.name : StageKind → String
  | .root => "Root"
  | .filter => "Filter"
  | .map => "Map"

/-- **A stage** of a pipeline over elements of type `α`, its function running in `m`. -/
inductive Stage (m : Type → Type) (α : Type) where
  /-- Lets the elements the predicate accepts pass and drops the others. -/
  | filter (keep : α → m Bool)
  /-- Replaces each element by its image. -/
  | map (f : α → m α)

namespace Stage

variable {m : Type → Type} {α β : Type}

/-- The shape of a stage. -/
def kind : Stage m α → StageKind
  | .filter _ => .filter
  | .map _ => .map

variable [Monad m]

/-- **Passes one element** through a chain, first stage first: its output, or `none` when a
filter drops it (the later stages are then not asked). -/
def pass : List (Stage m α) → α → m (Option α)
  | [], x => pure (some x)
  | .filter keep :: rest, x => do if ← keep x then pass rest x else pure none
  | .map f :: rest, x => do pass rest (← f x)

/-- **Feeds a chain's outputs into a step**, element by element: each input is passed through
the chain and, if it comes out, handed to `step` before the next input is looked at. The step
may stop the walk (`ForInStep.done`); the walk reports whether it was stopped, with the last
accumulator. -/
def tryFold (chain : List (Stage m α)) (step : β → α → m (ForInStep β)) :
    List α → β → m (ForInStep β)
  | [], acc => pure (.yield acc)
  | x :: xs, acc => do
    match ← pass chain x with
    | none => tryFold chain step xs acc
    | some y =>
      match ← step acc y with
      | .done b => pure (.done b)
      | .yield b => tryFold chain step xs b

end Stage

/-- **A pure stage**: a filter or a map given by plain functions. -/
inductive PureStage (α : Type) where
  | filter (keep : α → Bool)
  | map (f : α → α)

namespace PureStage

variable {α : Type}

/-- The same stage in a monad: its function answers at once, with no effect. -/
def lift {m : Type → Type} [Pure m] : PureStage α → Stage m α
  | .filter keep => .filter fun x => pure (keep x)
  | .map f => .map fun x => pure (f x)

/-- **The pure view of a chain**: the outputs of a list of inputs, in order. -/
def outputs : List (PureStage α) → List α → List α
  | [], xs => xs
  | .filter keep :: rest, xs => outputs rest (xs.filter keep)
  | .map f :: rest, xs => outputs rest (xs.map f)

end PureStage

end ArrayFlow
