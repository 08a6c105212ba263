import ArrayFlow.Sorting.Small

/-!
# Runs and their merging

Longer stretches are sorted as a sequence of **runs**, stretches known to be in order or
left for later (`ArrayFlow.Sorting.Run`), merged as a balanced tree:

* `ArrayFlow.Sorting.leadingRun` – how long the stretch at the front already is in order,
  ascending or strictly descending;
* `ArrayFlow.Sorting.mergeRuns` – the stable merge of two sorted runs, from the front when the
  left run is the shorter one and from the back otherwise;
* `ArrayFlow.Sorting.mergeDepth` – the depth in the merge tree of the node between two
  neighbouring runs: the length of the common binary prefix of their midpoints, scaled to the
  whole stretch. Runs are merged bottom up, deepest first;
* `ArrayFlow.Sorting.goodRunLength` – how long a run found in the input must be to be kept as
  one.
-/

namespace ArrayFlow

namespace Sorting

variable {m : Type → Type} [Monad m] {α : Type}

/-! ### Merging two sorted runs -/

/-- Merges two sorted runs from the front onto `acc` (the output so far, last first): the left
element goes first unless the right one must stand before it. -/
def mergeUp (lt : α → α → m Bool) : List α → List α → List α → m (List α)
  | [], ys, acc => pure (acc.reverseAux ys)
  | xs, [], acc => pure (acc.reverseAux xs)
  | x :: xs, y :: ys, acc => do
    if ← lt y x then mergeUp lt (x :: xs) ys (y :: acc) else mergeUp lt xs (y :: ys) (x :: acc)
termination_by xs ys => xs.length + ys.length

/-- Merges two sorted runs from the back, both given last element first, onto `acc` (the
output so far, first first): the right element goes last unless it must stand before the left
one. When one run is used up, what is left of the other stands first. -/
def mergeDown (lt : α → α → m Bool) : List α → List α → List α → m (List α)
  | [], ys, acc => pure (ys.reverseAux acc)
  | xs, [], acc => pure (xs.reverseAux acc)
  | x :: xs, y :: ys, acc => do
    if ← lt y x then mergeDown lt xs (y :: ys) (x :: acc) else mergeDown lt (x :: xs) ys (y :: acc)
termination_by xs ys => xs.length + ys.length

/-- **The stable merge of two sorted runs**: from the front when the left run is not the
longer one, from the back otherwise; an empty run asks nothing. -/
def mergeRuns (lt : α → α → m Bool) (xs ys : List α) : m (List α) :=
  if xs.isEmpty || ys.isEmpty then pure (xs ++ ys)
  else if xs.length ≤ ys.length then mergeUp lt xs ys []
  else mergeDown lt xs.reverse ys.reverse []

/-! ### Runs in the input -/

/-- How many elements after `prev` continue a run: a strictly descending run continues while
each element must stand before the one before it, an ascending one while none must. -/
def runOn (lt : α → α → m Bool) (descending : Bool) : α → List α → Nat → m Nat
  | _, [], k => pure k
  | prev, x :: xs, k => do
    if (← lt x prev) == descending then runOn lt descending x xs (k + 1) else pure k

/-- **The run at the front**: its length, and whether it is strictly descending. The second
element decides the direction. -/
def leadingRun (lt : α → α → m Bool) : List α → m (Nat × Bool)
  | a :: b :: rest => do
    let descending ← lt b a
    pure ((← runOn lt descending b rest 2), descending)
  | xs => pure (xs.length, false)

/-- **A run**: a stretch of the elements, either known to be in order or left to be sorted
later. -/
structure Run (α : Type) where
  /-- The elements of the stretch. -/
  items : List α
  /-- Whether they are known to be in order. -/
  sorted : Bool

/-! ### The shape of the merge tree -/

/-- The factor that scales positions in a stretch of `n` elements to 62-bit fractions. -/
def scaleFor (n : Nat) : Nat := (4611686018427387904 + n - 1) / n

/-- The number of leading zeros of a 64-bit word. -/
def leadingZeros (z : Nat) : Nat := if z = 0 then 64 else 63 - Nat.log2 z

/-- **The depth of the merge node** between the run starting at `left` and ending at `mid` and
the run from `mid` to `right`: the number of leading bits that the scaled sums `left + mid`
and `mid + right` share, computed in 64-bit words. -/
def mergeDepth (scale left mid right : Nat) : Nat :=
  leadingZeros (((scale * (left + mid)) % 18446744073709551616) ^^^
    ((scale * (mid + right)) % 18446744073709551616))

/-- An approximate square root: a power of two near it, improved by one step of Newton's
method. -/
def sqrtApprox (n : Nat) : Nat :=
  let shift := (1 + Nat.log2 (n ||| 1)) / 2
  ((1 <<< shift) + (n >>> shift)) / 2

/-- **How long a run found in the input must be** to be kept: half the stretch, at most 64,
for stretches up to 4096 elements, and about the square root beyond. -/
def goodRunLength (n : Nat) : Nat :=
  if n ≤ 4096 then min (n - n / 2) 64 else sqrtApprox n

end Sorting

end ArrayFlow
