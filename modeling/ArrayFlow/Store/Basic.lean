import ArrayFlow.Misuse

/-!
# Stores: sequences with a buffer of their own

A **store** is a finite sequence of elements held in a buffer of some number of slots, its
*capacity*, together with a count of how many times that buffer has been replaced, its
*reallocations*. Both numbers are part of what a store is: two stores with the same elements
but different buffers are different stores, and every operation states what it does to the
buffer as well as to the elements.

* `ArrayFlow.Store` – the elements, the capacity and the reallocation count, with the bound
  `length ≤ capacity` carried in the type (`ArrayFlow.Store.length_le`);
* `ArrayFlow.Store.grown` – the **growth rule**: a full buffer of `c` slots is replaced by one
  of `c + c / 2 + 1`;
* `ArrayFlow.Store.append` – one element at the end, growing the buffer when it is full;
* `ArrayFlow.Store.ensureCapacity` and `ArrayFlow.Store.trim` – reserving and releasing
  room;
* `ArrayFlow.Store.appendAll` – the elements of a `ArrayFlow.Feed`, with room for the
  feed's promised length reserved once before the first of them.

Each operation comes with the equation that says what it does to the elements
(`ArrayFlow.Store.items_append`, `ArrayFlow.Store.items_appendAll`, …), so later files
reason about the element list and leave the definitions folded.
-/

namespace ArrayFlow

/-- **A store**: the live elements, the number of slots of the buffer that holds them, and how
many times the buffer has been replaced. The elements always fit in the buffer. -/
structure Store (α : Type) where
  /-- The live elements, first to last. -/
  items : List α
  /-- The number of slots of the current buffer. -/
  capacity : Nat
  /-- How many times the buffer has been replaced, by growing or by trimming. -/
  reallocations : Nat
  /-- The live elements fit in the buffer. -/
  length_le : items.length ≤ capacity

/-- **A feed**: elements to be added to a store, with a lower bound on their number that the
feed promises in advance. A list promises its exact length; a lazily produced sequence may
promise nothing. -/
structure Feed (α : Type) where
  /-- The elements, in the order they arrive. -/
  items : List α
  /-- The number of elements promised before the first arrives. -/
  promised : Nat
  /-- The promise is kept. -/
  promised_le : promised ≤ items.length

/-- **What a store operation can refuse**: an index past the elements it may address, or an
argument outside what the operation accepts. -/
inductive Store.Error where
  /-- The index is not one the operation may address in a store of this length. -/
  | indexOutOfRange (index length : Nat)
  /-- The argument is refused for the reason given. -/
  | invalidArgument (reason : Misuse)
  deriving DecidableEq, Repr

/-- The sentence that describes a refusal: `index out of range: 7 (len 3)`. -/
def Store.Error.message : Store.Error → String
  | .indexOutOfRange i n => "index out of range: " ++ toString i ++ " (len " ++ toString n ++ ")"
  | .invalidArgument r => "invalid argument: " ++ r.text

namespace Feed

variable {α : Type}

/-- A feed that promises exactly its elements. -/
def exact (xs : List α) : Feed α := ⟨xs, xs.length, Nat.le_refl _⟩

/-- A feed that promises nothing in advance. -/
def lazy (xs : List α) : Feed α := ⟨xs, 0, Nat.zero_le _⟩

/-- The same elements with nothing promised in advance. -/
def forget (f : Feed α) : Feed α := lazy f.items

@[simp] theorem items_exact (xs : List α) : (exact xs).items = xs := rfl

@[simp] theorem items_lazy (xs : List α) : (lazy xs).items = xs := rfl

@[simp] theorem items_forget (f : Feed α) : f.forget.items = f.items := rfl

end Feed

namespace Store

variable {α : Type}

/-! ### Buffers -/

/-- **The growth rule**: the capacity that replaces a full buffer of `c` slots. -/
def grown (c : Nat) : Nat := c + c / 2 + 1

/-- Growing always adds at least one slot. -/
theorem lt_grown (c : Nat) : c < grown c := by
  unfold grown; omega

/-- The number of live elements. -/
def length (s : Store α) : Nat := s.items.length

/-- The store with no elements and no buffer. -/
def empty : Store α := ⟨[], 0, 0, Nat.le_refl _⟩

/-- The store with no elements and a buffer of `c` slots. -/
def withCapacity (c : Nat) : Store α := ⟨[], c, 0, Nat.zero_le _⟩

/-- The store that holds `xs` in a buffer of exactly their number. -/
def ofList (xs : List α) : Store α := ⟨xs, xs.length, 0, Nat.le_refl _⟩

/-- Replaces the buffer by one of `c` slots, which must hold the live elements. -/
def reallocate (s : Store α) (c : Nat) (h : s.items.length ≤ c) : Store α :=
  ⟨s.items, c, s.reallocations + 1, h⟩

/-- A copy of the store: the same elements in a fresh buffer of exactly their number. -/
def copy (s : Store α) : Store α := ofList s.items

/-- Grows the buffer, when it has fewer than `n` slots, to `n` slots or to the next size of the
growth rule, whichever is larger. -/
def ensureCapacity (s : Store α) (n : Nat) : Store α :=
  if n > s.capacity then
    s.reallocate (max (grown s.capacity) n) (by
      have := s.length_le; have := lt_grown s.capacity; omega)
  else s

/-- Shrinks the buffer to the live elements, if it has slots to spare. -/
def trim (s : Store α) : Store α :=
  if s.items.length < s.capacity then s.reallocate s.items.length (Nat.le_refl _) else s

/-- Drops every element and keeps the buffer. -/
def clear (s : Store α) : Store α := ⟨[], s.capacity, s.reallocations, Nat.zero_le _⟩

/-- Replaces the elements by a list that is no longer, keeping the buffer. -/
def keep (s : Store α) (xs : List α) (h : xs.length ≤ s.items.length) : Store α :=
  ⟨xs, s.capacity, s.reallocations, Nat.le_trans h s.length_le⟩

/-! ### Adding at the end -/

/-- Makes room for one more element: a full buffer is replaced by one of the next size of the
growth rule, any other buffer is kept. -/
def makeRoom (s : Store α) : Store α :=
  if s.items.length = s.capacity then
    s.reallocate (grown s.items.length) (Nat.le_of_lt (lt_grown _))
  else s

@[simp] theorem items_makeRoom (s : Store α) : s.makeRoom.items = s.items := by
  unfold makeRoom; split <;> rfl

/-- After making room, one more element fits. -/
theorem length_lt_makeRoom (s : Store α) : s.makeRoom.items.length < s.makeRoom.capacity := by
  unfold makeRoom
  split
  · exact lt_grown _
  · have := s.length_le; omega

/-- **The buffer after appending**: the capacity and the reallocation count after `n` elements
are appended one by one to `len` elements held in `cap` slots, `r` replacements having been
made so far. Each element that finds the buffer full first replaces it by one of the next size
of the growth rule. -/
def growthFor : (len cap r n : Nat) → Nat × Nat
  | _, cap, r, 0 => (cap, r)
  | len, cap, r, n + 1 =>
    if len = cap then growthFor (len + 1) (grown len) (r + 1) n
    else growthFor (len + 1) cap r n

/-- Appending one by one always leaves room for the elements appended. -/
theorem add_le_growthFor (len cap r n : Nat) (h : len ≤ cap) :
    len + n ≤ (growthFor len cap r n).1 := by
  induction n generalizing len cap r with
  | zero => simpa [growthFor] using h
  | succ n ih =>
    unfold growthFor
    split
    · have := ih (len + 1) (grown len) (r + 1) (lt_grown len); omega
    · have := ih (len + 1) cap r (by omega); omega

/-- **Appends the elements one by one**, with no room reserved in advance: the buffer grows by
the growth rule each time it is full. -/
def appendEach (s : Store α) (xs : List α) : Store α :=
  ⟨s.items ++ xs, (growthFor s.items.length s.capacity s.reallocations xs.length).1,
    (growthFor s.items.length s.capacity s.reallocations xs.length).2, by
      simpa using add_le_growthFor _ _ s.reallocations xs.length s.length_le⟩

/-- **Appends one element**, growing a full buffer by the growth rule first. -/
def append (s : Store α) (x : α) : Store α := s.appendEach [x]

/-- **Appends a feed**: room for the promised number of elements is reserved once, then each
element is appended. -/
def appendAll (s : Store α) (f : Feed α) : Store α :=
  (s.ensureCapacity (s.items.length + f.promised)).appendEach f.items

/-- The store built by appending `xs` one by one to the empty store. -/
def ofAppends (xs : List α) : Store α := empty.appendEach xs

/-- The store built from a feed: the empty store with the feed appended. -/
def ofFeed (f : Feed α) : Store α := empty.appendAll f

/-! ### What each operation does to the elements -/

@[simp] theorem items_empty : (empty : Store α).items = [] := rfl

@[simp] theorem items_withCapacity (c : Nat) : (withCapacity c : Store α).items = [] := rfl

@[simp] theorem items_ofList (xs : List α) : (ofList xs).items = xs := rfl

@[simp] theorem items_copy (s : Store α) : s.copy.items = s.items := rfl

@[simp] theorem items_reallocate (s : Store α) (c : Nat) (h : s.items.length ≤ c) :
    (s.reallocate c h).items = s.items := rfl

@[simp] theorem items_ensureCapacity (s : Store α) (n : Nat) :
    (s.ensureCapacity n).items = s.items := by
  unfold ensureCapacity; split <;> rfl

@[simp] theorem items_trim (s : Store α) : s.trim.items = s.items := by
  unfold trim; split <;> rfl

@[simp] theorem items_clear (s : Store α) : s.clear.items = [] := rfl

@[simp] theorem items_keep (s : Store α) (xs : List α) (h : xs.length ≤ s.items.length) :
    (s.keep xs h).items = xs := rfl

@[simp] theorem items_append (s : Store α) (x : α) : (s.append x).items = s.items ++ [x] := rfl

@[simp] theorem items_appendEach (s : Store α) (xs : List α) :
    (s.appendEach xs).items = s.items ++ xs := rfl

@[simp] theorem items_appendAll (s : Store α) (f : Feed α) :
    (s.appendAll f).items = s.items ++ f.items := by
  simp [appendAll]

@[simp] theorem items_ofAppends (xs : List α) : (ofAppends xs).items = xs := by
  simp [ofAppends]

@[simp] theorem items_ofFeed (f : Feed α) : (ofFeed f).items = f.items := by
  simp [ofFeed]

/-! ### Reading -/

/-- The elements, separated by commas and enclosed in brackets: `[1, -2, 3]`. -/
def render [ToString α] (s : Store α) : String :=
  "[" ++ ", ".intercalate (s.items.map toString) ++ "]"

/-- Two stores are equal as sequences when they hold the same elements, whatever their
buffers. -/
def sameItems [BEq α] (s t : Store α) : Bool := s.items == t.items

end Store

end ArrayFlow
