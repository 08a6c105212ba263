import ArrayFlow.Store.Basic

/-!
# Looking into a store

Reading a store leaves it as it is. Besides reading by index and searching by value, a store
can be read a contiguous stretch at a time:

* `ArrayFlow.Store.slice?` – the elements of an index range `[lo, hi)`, refused when the range
  is reversed (checked first) or runs past the end;
* `ArrayFlow.Store.section?` – the `k`-th of `n` **sections**: every section has
  `length / n` elements, except the last, which also takes the remainder;
* `ArrayFlow.Store.sectionCount` – how many sections of a given size a store reports: the
  length divided by the size, but never fewer than one.
-/

namespace ArrayFlow

namespace Store

variable {α : Type}

/-! ### By index and by value -/

/-- The element at index `i`. -/
def get (s : Store α) (i : Nat) : Except Error α :=
  match s.items[i]? with
  | some x => .ok x
  | none => .error (.indexOutOfRange i s.items.length)

/-- The first element, if there is one. -/
def first? (s : Store α) : Option α := s.items.head?

/-- The last element, if there is one. -/
def last? (s : Store α) : Option α := s.items.getLast?

/-- Whether some element equals `x`. -/
def contains [BEq α] (s : Store α) (x : α) : Bool := s.items.contains x

/-- The index of the first element equal to `x`. -/
def indexOf? [BEq α] (s : Store α) (x : α) : Option Nat := s.items.idxOf? x

/-- The index of the last element of `xs` equal to `x`, counting from `i` for the first one,
or `found` if there is none. -/
def lastIndexFrom [BEq α] (x : α) : List α → Nat → Option Nat → Option Nat
  | [], _, found => found
  | y :: ys, i, found => lastIndexFrom x ys (i + 1) (if y == x then some i else found)

/-- The index of the last element equal to `x`. -/
def lastIndexOf? [BEq α] (s : Store α) (x : α) : Option Nat := lastIndexFrom x s.items 0 none

/-- Each element with its index, first to last. -/
def indexed (s : Store α) : List (Nat × α) := s.items.zipIdx.map fun p => (p.2, p.1)

/-! ### Stretches -/

/-- **The elements of `[lo, hi)`**: a reversed range is refused first, then a range that runs
past the end. -/
def slice? (s : Store α) (lo hi : Nat) : Except Error (List α) :=
  if lo > hi then .error (.invalidArgument .reversedRange)
  else if hi > s.items.length then .error (.indexOutOfRange hi s.items.length)
  else .ok ((s.items.take hi).drop lo)

/-- How many sections of `size` elements a store reports: never fewer than one. -/
def sectionCount (s : Store α) (size : Nat) : Except Error Nat :=
  if size = 0 then .error (.invalidArgument .zeroBatchSize)
  else .ok (max (s.items.length / size) 1)

/-- **Section `k` of `n`**: each section has `length / n` elements and the last one also takes
the remainder. No sections, and an index that is not below their number, are refused, in this
order. -/
def section? (s : Store α) (k n : Nat) : Except Error (List α) :=
  if n = 0 then .error (.invalidArgument .zeroSectionCount)
  else if k ≥ n then .error (.invalidArgument .sectionIndexTooLarge)
  else
    let size := s.items.length / n
    let lo := size * k
    let hi := if k = n - 1 then s.items.length else lo + size
    .ok ((s.items.take hi).drop lo)

end Store

end ArrayFlow
