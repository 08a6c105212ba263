import ArrayFlow.Store.Edit
import ArrayFlow.Word

/-!
# Queries that build new stores

A query walks a store's elements once, first to last, asking a predicate or a function about
each, and builds its answer without changing the store. The functions it is given run in a
monad `m`, so that a caller may count, record or stop their calls; every query asks in index
order and stops asking exactly where its description says.

How each answer's buffer is built is part of the query:

* `ArrayFlow.Store.selectM`, `ArrayFlow.Store.partitionM`, `ArrayFlow.Store.collectIfM` and
  `ArrayFlow.Store.distinct` start from the empty store and **append** one element at a time,
  so their buffers follow the growth rule;
* `ArrayFlow.Store.collectM` reserves one slot per element up front;
* `ArrayFlow.Store.flatCollectM` appends one feed per element;
* prefixes, suffixes, sorted copies and chunks are **copies**, with buffers of exactly their
  length;
* `ArrayFlow.Store.chunk` holds its chunks in a buffer of exactly their number.

The searches `ArrayFlow.Store.detectIndexM`, `ArrayFlow.Store.anySatisfyM` and
`ArrayFlow.Store.allSatisfyM` stop at the first element that decides them; the extremum
searches `ArrayFlow.Store.minByKeyM` and `ArrayFlow.Store.maxByKeyM` keep the first of equal
keys; `ArrayFlow.Store.sumOfM` stops at the first partial sum that is not a word.
-/

namespace ArrayFlow

namespace Store

variable {α β : Type} {m : Type → Type} [Monad m]

/-! ### Filtering and mapping -/

/-- **Selection**: the elements the predicate accepts, appended one by one to an empty
store. -/
def selectM (s : Store α) (p : α → m Bool) : m (Store α) := do
  pure (ofAppends (← s.items.filterM p))

/-- The elements the predicate rejects, appended one by one to an empty store. -/
def rejectM (s : Store α) (p : α → m Bool) : m (Store α) :=
  s.selectM fun x => (! ·) <$> p x

/-- The accepted and the rejected elements, each appended one by one to an empty store. The
predicate is asked once per element. -/
def partitionM (s : Store α) (p : α → m Bool) : m (Store α × Store α) := do
  let marks ← s.items.mapM p
  pure (ofAppends (keepMarked s.items marks), ofAppends (keepMarked s.items (marks.map (! ·))))

/-- **Mapping**: the image of every element, in a buffer reserved for all of them. -/
def collectM (s : Store α) (f : α → m β) : m (Store β) := do
  pure ((withCapacity s.items.length).appendEach (← s.items.mapM f))

/-- The feeds of every element, appended one after the other to an empty store. -/
def flatCollectM (s : Store α) (f : α → m (Feed β)) : m (Store β) :=
  s.items.foldlM (fun acc x => do pure (acc.appendAll (← f x))) empty

/-- The images of the accepted elements, appended one by one to an empty store. Each element is
first judged, and mapped only when accepted. -/
def collectIfM (s : Store α) (p : α → m Bool) (f : α → m β) : m (Store β) := do
  pure (ofAppends (← s.items.filterMapM fun x => do if ← p x then some <$> f x else pure none))

/-! ### Searching -/

/-- The index of the first element of a list that the predicate accepts; the predicate is not
asked about the elements after it. -/
def firstIndexM (p : α → m Bool) : List α → m (Option Nat)
  | [] => pure none
  | x :: xs => do
    if ← p x then pure (some 0) else (·.map (· + 1)) <$> firstIndexM p xs

/-- **The index of the first accepted element**, asking no further. -/
def detectIndexM (s : Store α) (p : α → m Bool) : m (Option Nat) := firstIndexM p s.items

/-- The first accepted element, asking no further. -/
def detectM (s : Store α) (p : α → m Bool) : m (Option α) := do
  pure ((← s.detectIndexM p).bind fun i => s.items[i]?)

/-- Whether some element is accepted, asking up to the first that is. -/
def anySatisfyM (s : Store α) (p : α → m Bool) : m Bool := do
  pure (← s.detectIndexM p).isSome

/-- Whether every element is accepted, asking up to the first that is not. -/
def allSatisfyM (s : Store α) (p : α → m Bool) : m Bool := do
  pure (← s.detectIndexM fun x => (! ·) <$> p x).isNone

/-- Whether no element is accepted, asking up to the first that is. -/
def noneSatisfyM (s : Store α) (p : α → m Bool) : m Bool := do
  pure !(← s.anySatisfyM p)

/-- The number of accepted elements; every element is asked about. -/
def countM (s : Store α) (p : α → m Bool) : m Nat :=
  s.items.foldlM (fun n x => do pure (if ← p x then n + 1 else n)) 0

/-! ### Folding -/

/-- **Folds** every element into an accumulator, first to last. -/
def injectIntoM {γ : Type} (s : Store α) (init : γ) (f : γ → α → m γ) : m γ :=
  s.items.foldlM f init

/-- Adds up the words of a list onto `acc`, stopping at the first partial sum that is not a
word; the words after it are not asked for. -/
def checkedSumM (f : α → m Int64) : List α → Int64 → m (Option Int64)
  | [], acc => pure (some acc)
  | x :: xs, acc => do
    match Word.checkedAdd? acc (← f x) with
    | none => pure none
    | some a => checkedSumM f xs a

/-- **The checked sum** of the words of every element: `none` as soon as a partial sum leaves
the range of words. -/
def sumOfM (s : Store α) (f : α → m Int64) : m (Option Int64) := checkedSumM f s.items 0

/-- Keeps whichever of the best so far and the new candidate `better` prefers; the best so far
stays unless the candidate is strictly better. -/
def keepBetter {κ : Type} (better : κ → κ → Bool) (best : Option (κ × α)) (k : κ) (x : α) :
    Option (κ × α) :=
  match best with
  | some (b, y) => if better k b then some (k, x) else some (b, y)
  | none => some (k, x)

/-- The element whose key no other key beats, the first one on ties. -/
def extremumByM {κ : Type} (s : Store α) (key : α → m κ) (better : κ → κ → Bool) :
    m (Option α) := do
  let best ← s.items.foldlM (fun best x => do pure (keepBetter better best (← key x) x)) none
  pure (best.map Prod.snd)

/-- **The element of least key**, the first of several. -/
def minByKeyM {κ : Type} [Ord κ] (s : Store α) (key : α → m κ) : m (Option α) :=
  s.extremumByM key fun a b => compare a b == .lt

/-- **The element of greatest key**, the first of several. -/
def maxByKeyM {κ : Type} [Ord κ] (s : Store α) (key : α → m κ) : m (Option α) :=
  s.extremumByM key fun a b => compare a b == .gt

/-! ### Copies and rearrangements -/

/-- The first occurrence of every element, in order; `seen` holds the elements met before. -/
def firstOccurrences [BEq α] (seen : List α) : List α → List α
  | [] => []
  | x :: xs =>
    if seen.contains x then firstOccurrences seen xs else x :: firstOccurrences (x :: seen) xs

/-- **Without repeats**: the first occurrence of each element, appended one by one to an empty
store. -/
def distinct [BEq α] (s : Store α) : Store α := ofAppends (firstOccurrences [] s.items)

/-- A sorted copy, stable, by a comparison that may have effects. -/
def toSortedWithM [Inhabited α] (s : Store α) (lt : α → α → m Bool) : m (Store α) :=
  s.copy.sortWithM lt

/-- The longest prefix of accepted elements, as a copy; the predicate is asked up to the first
element it rejects. -/
def takeWhileM (s : Store α) (p : α → m Bool) : m (Store α) := do
  let i := (← s.detectIndexM fun x => (! ·) <$> p x).getD s.items.length
  pure (ofList (s.items.take i))

/-- What follows the longest prefix of accepted elements, as a copy. -/
def dropWhileM (s : Store α) (p : α → m Bool) : m (Store α) := do
  let i := (← s.detectIndexM fun x => (! ·) <$> p x).getD s.items.length
  pure (ofList (s.items.drop i))

/-- The longest prefix of accepted elements and what follows it, as copies. -/
def partitionWhileM (s : Store α) (p : α → m Bool) : m (Store α × Store α) := do
  let i := (← s.detectIndexM fun x => (! ·) <$> p x).getD s.items.length
  pure (ofList (s.items.take i), ofList (s.items.drop i))

/-! ### Groups and chunks -/

/-- Appends `x` to the group of key `k`, opening a new group at the end if there is none. -/
def addToGroup {κ : Type} [BEq κ] : List (κ × Store α) → κ → α → List (κ × Store α)
  | [], k, x => [(k, empty.append x)]
  | (k', g) :: rest, k, x =>
    if k' == k then (k', g.append x) :: rest else (k', g) :: addToGroup rest k x

/-- **Groups** the elements by key: one group per key, in the order keys are first met, each
group built by appending its elements one by one to an empty store. -/
def groupByM {κ : Type} [BEq κ] (s : Store α) (key : α → m κ) : m (List (κ × Store α)) :=
  s.items.foldlM (fun groups x => do pure (addToGroup groups (← key x) x)) []

/-- The consecutive pieces of `n` elements of a list; the last may be shorter. -/
def piecesOf (n : Nat) (h : 0 < n) : List α → List (List α)
  | [] => []
  | x :: xs => (x :: xs).take n :: piecesOf n h ((x :: xs).drop n)
termination_by xs => xs.length
decreasing_by simp only [List.length_drop, List.length_cons]; omega

/-- **Chunks**: the consecutive pieces of `size` elements, each a copy, held in a buffer of
exactly their number. A size of zero is refused. -/
def chunk (s : Store α) (size : Nat) : Except Error (Store (Store α)) :=
  if h : size = 0 then .error (.invalidArgument .zeroChunkSize)
  else
    .ok ((withCapacity ((s.items.length + size - 1) / size)).appendEach
      ((piecesOf size (Nat.pos_of_ne_zero h) s.items).map ofList))

end Store

end ArrayFlow
