import ArrayFlow.Sorting.Runs

/-!
# Sorting by runs

A stretch is cut, left to right, into runs (`ArrayFlow.Sorting.createRun`): a run already in
the input is kept when it is long enough, a short stretch is sorted at once in **eager** mode,
and otherwise a stretch is left unsorted. Each new run settles the merges of the runs before it
that lie deeper in the merge tree than its own merge node (`ArrayFlow.Sorting.collapse`), so
that runs are merged as in a balanced tree whatever their lengths.

Two unsorted runs whose elements still fit in the scratch room are merged by joining them, left
for later; any other merge first sorts the unsorted sides (`settle`) and then merges
(`ArrayFlow.Sorting.combine`). What is left unsorted at the end is settled as a whole.
-/

namespace ArrayFlow

namespace Sorting

variable {m : Type → Type} [Monad m] {α : Type}

/-- **The next run** of a stretch of `n` elements: the run at its front when it is at least
`good` long (reversed if it is strictly descending); otherwise, in eager mode, the first 32
elements or fewer sorted by `small`, and else the first `good` elements or fewer, unsorted. -/
def createRun (lt : α → α → m Bool) (small : List α → m (List α)) (good : Nat) (eager : Bool)
    (n : Nat) (xs : List α) : m (Run α) := do
  if good ≤ n then
    let (k, descending) ← leadingRun lt xs
    if good ≤ k then
      let run := xs.take k
      return ⟨if descending then run.reverse else run, true⟩
  if eager then return ⟨← small (xs.take (min 32 n)), true⟩
  else return ⟨xs.take (min good n), false⟩

/-- **Merges two neighbouring runs**: two unsorted runs that fit in `room` together are joined
and stay unsorted; otherwise the unsorted ones are settled, left first, and the two merged. -/
def combine (lt : α → α → m Bool) (settle : List α → m (List α)) (room : Nat)
    (left right : Run α) : m (Run α) := do
  if left.items.length + right.items.length ≤ room && !left.sorted && !right.sorted then
    pure ⟨left.items ++ right.items, false⟩
  else
    let l ← if left.sorted then pure left.items else settle left.items
    let r ← if right.sorted then pure right.items else settle right.items
    pure ⟨← mergeRuns lt l r, true⟩

/-- Merges into `prev`, top first, the runs of the stack whose merge node is at least `depth`
deep; the rest of the stack is left. -/
def collapse (merge : Run α → Run α → m (Run α)) (depth : Nat) :
    List (Run α × Nat) → Run α → m (List (Run α × Nat) × Run α)
  | [], prev => pure ([], prev)
  | (left, d) :: stack, prev => do
    if depth ≤ d then collapse merge depth stack (← merge left prev)
    else pure ((left, d) :: stack, prev)

/-- The loop over the runs of a stretch: `rest` holds the `remaining` elements after position
`scan`, `prev` is the run just before them, `prevLength` elements long, and `stack` holds the
earlier runs with the depths of their merge nodes, innermost first. Each round creates a run,
settles the deeper merges, and pushes `prev`; at the end every merge is settled. The fuel
bounds the number of rounds, which never exceeds the number of elements. -/
def driftLoop (next : Nat → List α → m (Run α)) (merge : Run α → Run α → m (Run α))
    (scale : Nat) :
    Nat → List α → Nat → Nat → Nat → Run α → List (Run α × Nat) → m (Run α)
  | 0, _, _, _, _, prev, stack => do pure (← collapse merge 0 stack prev).2
  | fuel + 1, rest, remaining, scan, prevLength, prev, stack => do
    if remaining = 0 then pure (← collapse merge 0 stack prev).2
    else
      let run ← next remaining rest
      let k := run.items.length
      let depth := mergeDepth scale (scan - prevLength) scan (scan + k)
      let (stack, prev) ← collapse merge depth stack prev
      driftLoop next merge scale fuel (rest.drop k) (remaining - k) (scan + k) k run
        ((prev, depth) :: stack)

/-- **Sorts a stretch by runs**: the runs are created left to right and merged as a balanced
tree; an unsorted result is settled as a whole. `small` sorts short stretches, `settle` sorts
unsorted runs, and `room` is the number of elements the scratch space holds. -/
def drift (lt : α → α → m Bool) (small settle : List α → m (List α)) (room : Nat)
    (eager : Bool) (xs : List α) : m (List α) := do
  let n := xs.length
  if n < 2 then return xs
  let good := goodRunLength n
  let next := createRun lt small good eager
  let first ← next n xs
  let k := first.items.length
  let last ← driftLoop next (combine lt settle room) (scaleFor n) n (xs.drop k) (n - k) k k
    first []
  if last.sorted then pure last.items else settle last.items

end Sorting

end ArrayFlow
