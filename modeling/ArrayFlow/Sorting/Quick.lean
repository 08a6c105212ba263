import ArrayFlow.Sorting.Drift

/-!
# The stable sort

**The stable sort** (`ArrayFlow.Sorting.stableM`) orders a list by a comparison
`lt a b`, "`a` must stand before `b`", keeping elements that need not be reordered in their
order. Which comparisons it asks, and in which order, is fixed:

* fewer than two elements ask nothing;
* up to 20 elements are sorted by insertion (`ArrayFlow.Sorting.insertion`);
* longer lists are sorted by runs (`ArrayFlow.Sorting.drift`), eagerly up to 64 elements, and
  the unsorted runs of longer lists are settled by a stable quicksort
  (`ArrayFlow.Sorting.quick`).

The quicksort chooses its pivot as a median of three or, from 64 elements on, as a recursive
pseudo-median of nine and more (`ArrayFlow.Sorting.choosePivot`); partitions stably around it
(`ArrayFlow.Sorting.partition`); sorts the right side, then the left; and, when a pivot is no
greater than the pivot of a left ancestor, splits off the elements equal to it instead. After too
many partitions it sorts by runs, eagerly. Stretches of up to 32 elements are sorted by
`ArrayFlow.Sorting.small`.
-/

namespace ArrayFlow

namespace Sorting

variable {m : Type → Type} [Monad m] {α : Type}

/-! ### Choosing a pivot -/

/-- **The median of three** positions of `v`: the position of the element that lies between the
other two. -/
def median3 (lt : α → α → m Bool) (v : Array α) (d : α) (a b c : Nat) : m Nat := do
  let x ← lt (v.getD a d) (v.getD b d)
  let y ← lt (v.getD a d) (v.getD c d)
  if x == y then
    let z ← lt (v.getD b d) (v.getD c d)
    pure (if z != x then c else b)
  else pure a

/-- The pseudo-median of the three blocks of `n` elements at `a`, `b` and `c`: a block of 8
elements or more stands for the pseudo-median of its own three sub-blocks. -/
def pseudoMedian (lt : α → α → m Bool) (v : Array α) (d : α) (a b c n : Nat) : m Nat :=
  if 64 ≤ n * 8 then do
    let e := n / 8
    let a ← pseudoMedian lt v d a (a + e * 4) (a + e * 7) e
    let b ← pseudoMedian lt v d b (b + e * 4) (b + e * 7) e
    let c ← pseudoMedian lt v d c (c + e * 4) (c + e * 7) e
    median3 lt v d a b c
  else median3 lt v d a b c
termination_by n
decreasing_by all_goals omega

/-- **The pivot** of `v`: the median of the elements at the starts of its first, fifth and
eighth eighths, a pseudo-median of the blocks there from 64 elements on. -/
def choosePivot (lt : α → α → m Bool) (v : Array α) (d : α) : m Nat :=
  let e := v.size / 8
  if v.size < 64 then median3 lt v d 0 (e * 4) (e * 7)
  else pseudoMedian lt v d 0 (e * 4) (e * 7) e

/-! ### Partitioning -/

/-- **Partitions stably** around the element at `pivotAt`: every other element, asked in order,
goes left when `left` holds of it; the pivot goes left when `pivotLeft`. Both sides keep their
order. -/
def partition (left : α → m Bool) (pivotAt : Nat) (pivotLeft : Bool) (xs : List α) :
    m (List α × List α) := do
  let step := fun ((ls, rs, i) : List α × List α × Nat) x => do
    let goesLeft ← if i = pivotAt then pure pivotLeft else left x
    pure (if goesLeft then (x :: ls, rs, i + 1) else (ls, x :: rs, i + 1))
  let (ls, rs, _) ← xs.foldlM step ([], [], 0)
  pure (ls.reverse, rs.reverse)

/-! ### Quicksort -/

/-- The number of partitions a quicksort of `n` elements may make before it sorts by runs:
twice the binary logarithm. -/
def partitionLimit (n : Nat) : Nat := 2 * Nat.log2 (n ||| 1)

/-- **The stable quicksort**, with at most `limit` partitions on any path and `ancestor`, the
pivot of the nearest left ancestor, if any. The fuel bounds the depth of the recursion; every
call is on a shorter list, so one more than the length suffices. -/
def quick [Inhabited α] (lt : α → α → m Bool) (room : Nat) :
    Nat → List α → Nat → Option α → m (List α)
  | 0, xs, _, _ => pure xs
  | fuel + 1, xs, limit, ancestor => do
    if xs.length ≤ 32 then small lt xs
    else if limit = 0 then
      drift lt (small lt) (fun ys => quick lt room fuel ys (partitionLimit ys.length) none) room
        true xs
    else
      let v := xs.toArray
      let p ← choosePivot lt v default
      let pivot := v.getD p default
      let same ← match ancestor with
        | some a => do pure !(← lt a pivot)
        | none => pure false
      let (ls, rs) ← if same then pure ([], xs) else partition (lt · pivot) p false xs
      if ls.isEmpty then
        let (es, gs) ← partition (fun x => do pure !(← lt pivot x)) p true xs
        pure (es ++ (← quick lt room fuel gs (limit - 1) none))
      else
        let rs ← quick lt room fuel rs (limit - 1) (some pivot)
        let ls ← quick lt room fuel ls (limit - 1) ancestor
        pure (ls ++ rs)

/-- The scratch room for sorting `n` elements: at least half of them and up to a million, at
least 48, and never less than the 512 of a stack buffer. -/
def roomFor (n : Nat) : Nat :=
  let want := max (max (n - n / 2) (min n 1000000)) 48
  if want ≤ 512 then 512 else want

/-- **The stable sort** of `xs` by `lt`. -/
def stableM [Inhabited α] (lt : α → α → m Bool) (xs : List α) : m (List α) :=
  let n := xs.length
  if n < 2 then pure xs
  else if n ≤ 20 then insertion lt xs
  else
    let room := roomFor n
    drift lt (small lt) (fun ys => quick lt room (ys.length + 1) ys (partitionLimit ys.length) none)
      room (n ≤ 64) xs

end Sorting

end ArrayFlow
