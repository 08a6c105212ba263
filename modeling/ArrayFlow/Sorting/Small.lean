/-!
# Sorting short stretches

The stable sort of this library (`ArrayFlow.Sorting.stableM`) orders short stretches by a few
fixed schemes. Each is a stable sort in its own right, and each asks its comparisons in a fixed
order, which shows when comparing has effects: a comparison that fails, or one that counts.

A comparison `lt a b` asks whether `a` must stand before `b`.

* `ArrayFlow.Sorting.insertion` – each element, left to right, is inserted into the sorted
  stretch before it, compared with its left neighbours from the nearest on;
* `ArrayFlow.Sorting.four` – a network of five comparisons for four elements;
* `ArrayFlow.Sorting.meet` – two sorted halves merged from both ends at once;
* `ArrayFlow.Sorting.eight` – two networks of four, met;
* `ArrayFlow.Sorting.small` – up to 32 elements: each half is presorted by networks and
  completed by insertion, and the halves are met.
-/

namespace ArrayFlow

namespace Sorting

variable {m : Type → Type} [Monad m] {α : Type}

/-! ### Insertion -/

/-- Inserts `x` into a sorted stretch given nearest first (its last element first): `x` moves
left past every element it must stand before, compared with the nearest first. -/
def insertRev (lt : α → α → m Bool) (x : α) : List α → m (List α)
  | [] => pure [x]
  | y :: ys => do
    if ← lt x y then pure (y :: (← insertRev lt x ys)) else pure (x :: y :: ys)

/-- Inserts the elements of `xs`, left to right, into a sorted stretch given nearest first. -/
def insertAll (lt : α → α → m Bool) (rev : List α) (xs : List α) : m (List α) :=
  xs.foldlM (fun acc x => insertRev lt x acc) rev

/-- Completes a sorted stretch by inserting the elements of `xs` after it, left to right. -/
def extend (lt : α → α → m Bool) (sorted xs : List α) : m (List α) := do
  pure (← insertAll lt sorted.reverse xs).reverse

/-- **Insertion sort**: the first element is a sorted stretch, and every later one is inserted
into it in turn. -/
def insertion (lt : α → α → m Bool) : List α → m (List α)
  | [] => pure []
  | x :: xs => extend lt [x] xs

/-! ### Networks and meeting -/

/-- **Four elements by a network** of five comparisons: the two pairs are ordered, their least
and their greatest elements compared, and the two middle elements ordered last. Ties keep the
left element first. -/
def four (lt : α → α → m Bool) (v0 v1 v2 v3 : α) : m (List α) := do
  let c1 ← lt v1 v0
  let c2 ← lt v3 v2
  let a := if c1 then v1 else v0
  let b := if c1 then v0 else v1
  let c := if c2 then v3 else v2
  let d := if c2 then v2 else v3
  let c3 ← lt c a
  let c4 ← lt d b
  let least := if c3 then c else a
  let greatest := if c4 then b else d
  let l := if c3 then a else if c4 then c else b
  let r := if c4 then d else if c3 then b else c
  let c5 ← lt r l
  pure (if c5 then [least, r, l, greatest] else [least, l, r, greatest])

/-- The four first elements of a list sorted by the network; a shorter list is left as it
is. -/
def fourOf (lt : α → α → m Bool) : List α → m (List α)
  | v0 :: v1 :: v2 :: v3 :: _ => four lt v0 v1 v2 v3
  | xs => pure xs

/-- Where the meeting of two halves stands: the next unused index of each half from the front,
and one past the last unused index of each half from the back. -/
structure Meeting where
  /-- The next element of the left half from the front. -/
  left : Nat
  /-- The next element of the right half from the front. -/
  right : Nat
  /-- One past the next element of the left half from the back. -/
  leftEnd : Nat
  /-- One past the next element of the right half from the back. -/
  rightEnd : Nat

/-- Runs `k` rounds of a meeting. Each round places one element at the front, the right front
if it must stand before the left front and the left front otherwise, and one at the back, the
left back if the right back must stand before it and the right back otherwise. -/
def meetRounds (lt : α → α → m Bool) (v : Array α) (d : α) :
    Nat → Meeting → List α → List α → m (Meeting × List α × List α)
  | 0, s, front, back => pure (s, front, back)
  | k + 1, s, front, back => do
    let x := v.getD s.left d
    let y := v.getD s.right d
    let takeRight ← lt y x
    let front := (if takeRight then y else x) :: front
    let s := if takeRight then { s with right := s.right + 1 } else { s with left := s.left + 1 }
    let x := v.getD (s.leftEnd - 1) d
    let y := v.getD (s.rightEnd - 1) d
    let takeLeft ← lt y x
    let back := (if takeLeft then x else y) :: back
    let s := if takeLeft then { s with leftEnd := s.leftEnd - 1 }
      else { s with rightEnd := s.rightEnd - 1 }
    meetRounds lt v d k s front back

/-- **Meets two sorted halves** of `v`, the first `v.size / 2` elements and the rest, from both
ends at once: half as many rounds as elements, then the one element left over, if any. The
element `d` stands in for reads outside `v`, which a consistent comparison never makes. -/
def meet (lt : α → α → m Bool) (v : Array α) (d : α) : m (List α) := do
  let n := v.size
  let h := n / 2
  let (s, front, back) ← meetRounds lt v d h ⟨0, h, h, n⟩ [] []
  let middle :=
    if n % 2 = 0 then [] else [if s.left < s.leftEnd then v.getD s.left d else v.getD s.right d]
  pure (front.reverse ++ middle ++ back)

/-- Eight elements: each four by the network, then met. -/
def eight [Inhabited α] (lt : α → α → m Bool) (xs : List α) : m (List α) := do
  let a ← fourOf lt (xs.take 4)
  let b ← fourOf lt ((xs.drop 4).take 4)
  meet lt (a ++ b).toArray default

/-- The first `p` elements of a stretch sorted by a network: eight, four or one. -/
def presort [Inhabited α] (lt : α → α → m Bool) (p : Nat) (xs : List α) : m (List α) :=
  if p = 8 then eight lt (xs.take 8) else if p = 4 then fourOf lt (xs.take 4) else pure (xs.take p)

/-- **Sorts a short stretch**, of up to 32 elements. The left half (`n / 2` elements) and the
right half each begin with a presorted block, eight elements when `n ≥ 16`, four when
`n ≥ 8`, one otherwise; the blocks are sorted left then right, each half is completed by
insertion, and the halves are met. -/
def small [Inhabited α] (lt : α → α → m Bool) (xs : List α) : m (List α) := do
  let n := xs.length
  if n < 2 then return xs
  let left := xs.take (n / 2)
  let right := xs.drop (n / 2)
  let p := if 16 ≤ n then 8 else if 8 ≤ n then 4 else 1
  let lp ← presort lt p left
  let rp ← presort lt p right
  let l ← extend lt lp (left.drop p)
  let r ← extend lt rp (right.drop p)
  meet lt (l ++ r).toArray default

end Sorting

end ArrayFlow
