import ArrayFlow.Pipeline.Stage

/-!
# Pipelines and batches

A **pipeline** is a source list together with a chain of stages; building one does no work. A
**batch** is a contiguous range `[start, stop)` of source indices seen through a chain: it
holds its bounds, never a copy of the elements, and every operation on it walks the elements of
its range in ascending order through the chain, fused (`ArrayFlow.Stage.tryFold`).

* `ArrayFlow.Pipeline.split` – the batches of a given positive size, covering the source
  from left to right, the last one possibly shorter; an empty source has none;
* `ArrayFlow.Pipeline.whole` – the one batch covering the whole source;
* `ArrayFlow.Pipeline.batchCount` – the number of batches a size is reported to give: the
  length divided by the size, never fewer than one;
* the operations of `ArrayFlow.Batch`, of which the searching ones (`anySatisfy`,
  `allSatisfy`, `detect`) stop at the first element of the batch that decides them;
* `ArrayFlow.Batch.select` and `ArrayFlow.Batch.collect` – the same range seen through one
  more stage.

A batch carries the proof that its bounds are ordered and lie within the source
(`ArrayFlow.Batch.start_le`, `ArrayFlow.Batch.stop_le`), so `stop - start` is its true
length.
-/

namespace ArrayFlow

/-- A list of shapes as it is written in descriptions: `[Root, Filter, Map]`. -/
def StageKind.listText (ks : List StageKind) : String :=
  "[" ++ ", ".intercalate (ks.map StageKind.name) ++ "]"

/-- **A pipeline**: a source and the chain of stages its elements go through. -/
structure Pipeline (m : Type → Type) (α : Type) where
  /-- The elements the pipeline reads. -/
  source : List α
  /-- The stages, first to last. -/
  chain : List (Stage m α)

/-- **A batch**: the source indices `[start, stop)` seen through a chain of stages. -/
structure Batch (m : Type → Type) (α : Type) where
  /-- The elements of the whole source. -/
  source : List α
  /-- The stages, first to last. -/
  chain : List (Stage m α)
  /-- The first source index covered. -/
  start : Nat
  /-- One past the last source index covered. -/
  stop : Nat
  /-- The bounds are ordered. -/
  start_le : start ≤ stop
  /-- The range lies within the source. -/
  stop_le : stop ≤ source.length

namespace Pipeline

variable {m : Type → Type} {α : Type}

/-- The pipeline that reads `xs` through no stages. -/
def ofList (xs : List α) : Pipeline m α := ⟨xs, []⟩

/-- The pipeline with one more stage, a filter. -/
def filter (p : Pipeline m α) (keep : α → m Bool) : Pipeline m α :=
  ⟨p.source, p.chain ++ [.filter keep]⟩

/-- The pipeline with one more stage, a map. -/
def map (p : Pipeline m α) (f : α → m α) : Pipeline m α :=
  ⟨p.source, p.chain ++ [.map f]⟩

/-- The number of source elements. -/
def sourceLength (p : Pipeline m α) : Nat := p.source.length

/-- The shapes of the source and of every stage, source first. -/
def kinds (p : Pipeline m α) : List StageKind := .root :: p.chain.map Stage.kind

/-- A one-line description: `Pipeline { kinds: [Root, Filter], source_len: 3 }`. -/
def describe (p : Pipeline m α) : String :=
  "Pipeline \x7b kinds: " ++ StageKind.listText p.kinds ++ ", source_len: " ++
    toString p.source.length ++ " \x7d"

/-- The number of batches reported for batches of `size`: never fewer than one. -/
def batchCount (p : Pipeline m α) (size : Nat) : Nat := max (p.source.length / size) 1

/-- The batch covering the whole source. -/
def whole (p : Pipeline m α) : Batch m α :=
  ⟨p.source, p.chain, 0, p.source.length, Nat.zero_le _, Nat.le_refl _⟩

/-- The batches of `size` elements from index `start` on; the last one may be shorter. -/
def splitFrom (p : Pipeline m α) (size : Nat) (h : 0 < size) (start : Nat) : List (Batch m α) :=
  if hs : start < p.source.length then
    ⟨p.source, p.chain, start, min (start + size) p.source.length, by omega,
      Nat.min_le_right _ _⟩ :: p.splitFrom size h (min (start + size) p.source.length)
  else []
termination_by p.source.length - start

/-- **The batches of `size` elements**, left to right; the last may be shorter, and an empty
source has none. -/
def split (p : Pipeline m α) (size : Nat) (h : 0 < size) : List (Batch m α) :=
  p.splitFrom size h 0

end Pipeline

namespace Batch

variable {m : Type → Type} {α β : Type}

/-- The number of source indices covered, before any filtering. -/
def length (b : Batch m α) : Nat := b.stop - b.start

/-- Whether the batch covers no source index. -/
def isEmpty (b : Batch m α) : Bool := b.start == b.stop

/-- The source elements of the range, before the chain. -/
def inputs (b : Batch m α) : List α := (b.source.take b.stop).drop b.start

/-- The shapes of the source and of every stage, source first. -/
def kinds (b : Batch m α) : List StageKind := .root :: b.chain.map Stage.kind

/-- A one-line description: `Batch { start: 4, end: 8, kinds: [Root, Filter, Map] }`. -/
def describe (b : Batch m α) : String :=
  "Batch \x7b start: " ++ toString b.start ++ ", end: " ++ toString b.stop ++ ", kinds: " ++
    StageKind.listText b.kinds ++ " \x7d"

/-- The same range seen through one more stage, a filter. -/
def select (b : Batch m α) (keep : α → m Bool) : Batch m α :=
  { b with chain := b.chain ++ [.filter keep] }

/-- The same range seen through one more stage, a map. -/
def collect (b : Batch m α) (f : α → m α) : Batch m α :=
  { b with chain := b.chain ++ [.map f] }

variable [Monad m]

/-- Feeds the batch's outputs into a step that may stop early. -/
def tryFold (b : Batch m α) (init : β) (step : β → α → m (ForInStep β)) : m (ForInStep β) :=
  Stage.tryFold b.chain step b.inputs init

/-- **Folds** every output of the batch into an accumulator. -/
def fold (b : Batch m α) (init : β) (f : β → α → m β) : m β := do
  match ← b.tryFold init fun acc y => do pure (.yield (← f acc y)) with
  | .done r => pure r
  | .yield r => pure r

/-- Runs a procedure on every output of the batch, in order. -/
def forEach (b : Batch m α) (proc : α → m Unit) : m Unit :=
  b.fold () fun _ y => proc y

/-- Whether some output is accepted, stopping at the first that is. -/
def anySatisfy (b : Batch m α) (p : α → m Bool) : m Bool := do
  match ← b.tryFold false fun _ y => do
      if ← p y then pure (.done true) else pure (.yield false) with
  | .done _ => pure true
  | .yield _ => pure false

/-- Whether every output is accepted, stopping at the first that is not. -/
def allSatisfy (b : Batch m α) (p : α → m Bool) : m Bool := do
  match ← b.tryFold true fun _ y => do
      if ← p y then pure (.yield true) else pure (.done false) with
  | .done _ => pure false
  | .yield _ => pure true

/-- The first accepted output, stopping there. -/
def detect (b : Batch m α) (p : α → m Bool) : m (Option α) := do
  match ← b.tryFold none fun _ y => do
      if ← p y then pure (.done (some y)) else pure (.yield none) with
  | .done r => pure r
  | .yield _ => pure none

/-- The number of accepted outputs. -/
def count (b : Batch m α) (p : α → m Bool) : m Nat :=
  b.fold 0 fun n y => do pure (if ← p y then n + 1 else n)

/-- **The outputs** of the batch, in order. -/
def toList (b : Batch m α) : m (List α) := do
  pure (← b.fold [] fun acc y => pure (y :: acc)).reverse

end Batch

end ArrayFlow
