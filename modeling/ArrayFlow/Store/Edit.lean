import ArrayFlow.Store.Basic
import ArrayFlow.Sorting.Quick

/-!
# Editing a store in place

The operations of this file change a store's elements where they stand: replacing, inserting
and removing by index, removing by value, keeping the elements a predicate accepts, sorting,
reversing and trimming the buffer when too much of it is unused.

* `ArrayFlow.Store.insertAt` and `ArrayFlow.Store.insertRange` – **insertion** at an index no
  greater than the length; one element makes room by the growth rule, a run of elements
  reserves room for all of them at once;
* `ArrayFlow.Store.compactKeepingM` – **compaction** by a predicate that is asked once per
  element, in order, keeping the buffer;
* `ArrayFlow.Store.tryCompactKeepingM` – compaction by a predicate that may refuse to answer.
  The elements are swept in place: each accepted element is swapped into the next kept slot.
  On a refusal the sweep stops where it is, and the store holds the arrangement the swaps have
  made so far (`ArrayFlow.Store.sweep`), which has every element exactly once
  (`ArrayFlow.Store.length_sweep`);
* `ArrayFlow.Store.sortWithM` – the **stable sort** by a comparison, asked in the order of
  `ArrayFlow.Sorting.stableM`;
* `ArrayFlow.Store.trimIf` – trimming when the unused share of the buffer exceeds a
  threshold between zero and one.
-/

namespace ArrayFlow

namespace Store

variable {α : Type}

/-! ### Replacing by index -/

/-- Replaces the element at index `i` and returns the one it held. -/
def set (s : Store α) (i : Nat) (x : α) : Except Error (α × Store α) :=
  if h : i < s.items.length then
    .ok (s.items[i], ⟨s.items.set i x, s.capacity, s.reallocations, by
      simpa using s.length_le⟩)
  else .error (.indexOutOfRange i s.items.length)

/-! ### Insertion -/

/-- **Inserts one element** before index `i`, which may be the length: at the length this is
`ArrayFlow.Store.append`; elsewhere a full buffer first grows by the growth rule. -/
def insertAt (s : Store α) (i : Nat) (x : α) : Except Error (Store α) :=
  if i > s.items.length then .error (.indexOutOfRange i s.items.length)
  else if i = s.items.length then .ok (s.append x)
  else
    .ok ⟨s.makeRoom.items.take i ++ x :: s.makeRoom.items.drop i, s.makeRoom.capacity,
      s.makeRoom.reallocations, by
        have := s.length_lt_makeRoom
        simp only [List.length_append, List.length_take, List.length_cons, List.length_drop]
        omega⟩

/-- Room for `n` elements is there after reserving it. -/
theorem le_capacity_ensureCapacity (s : Store α) (n : Nat) :
    n ≤ (s.ensureCapacity n).capacity := by
  unfold ensureCapacity reallocate
  split
  · exact Nat.le_max_right _ _
  · omega

/-- **Inserts a run of elements** before index `i`, keeping their order: room for all of them
is reserved at once. An index past the length is refused even when the run is empty. -/
def insertRange (s : Store α) (i : Nat) (xs : List α) : Except Error (Store α) :=
  if i > s.items.length then .error (.indexOutOfRange i s.items.length)
  else if xs.isEmpty then .ok s
  else
    let t := s.ensureCapacity (s.items.length + xs.length)
    .ok ⟨t.items.take i ++ xs ++ t.items.drop i, t.capacity, t.reallocations, by
      have := s.le_capacity_ensureCapacity (s.items.length + xs.length)
      simp only [t, items_ensureCapacity, List.length_append, List.length_take,
        List.length_drop]
      omega⟩

/-! ### Removal -/

/-- Removes the element at index `i` and returns it. -/
def removeAt (s : Store α) (i : Nat) : Except Error (α × Store α) :=
  if h : i < s.items.length then
    .ok (s.items[i], s.keep (s.items.eraseIdx i) (by simp [List.length_eraseIdx, h]))
  else .error (.indexOutOfRange i s.items.length)

/-- Removes the first element equal to `x`, and tells whether there was one. -/
def removeItem [BEq α] (s : Store α) (x : α) : Bool × Store α :=
  (s.items.contains x, s.keep (s.items.erase x) List.length_erase_le)

/-- The elements whose mark is `true`, in order; elements past the last mark are dropped. -/
def keepMarked : List α → List Bool → List α
  | x :: xs, b :: bs => if b then x :: keepMarked xs bs else keepMarked xs bs
  | _, _ => []

theorem length_keepMarked_le (xs : List α) (bs : List Bool) :
    (keepMarked xs bs).length ≤ xs.length := by
  induction xs generalizing bs with
  | nil => simp [keepMarked]
  | cons x xs ih =>
    cases bs with
    | nil => simp [keepMarked]
    | cons b bs =>
      have := ih bs
      cases b <;> simp [keepMarked] <;> omega

/-- Marking each element by a predicate and keeping the marked ones is filtering. -/
@[simp] theorem keepMarked_map (xs : List α) (p : α → Bool) :
    keepMarked xs (xs.map p) = xs.filter p := by
  induction xs with
  | nil => rfl
  | cons x xs ih => by_cases h : p x <;> simp [keepMarked, h, ih]

/-- **Compaction**: keeps the elements the predicate accepts, in their order, in the same
buffer. The predicate is asked once per element, first to last. -/
def compactKeepingM {m : Type → Type} [Monad m] (s : Store α) (p : α → m Bool) :
    m (Store α) := do
  let marks ← s.items.mapM p
  pure (s.keep (keepMarked s.items marks) (length_keepMarked_le _ _))

/-- Removes the elements the predicate accepts, keeping the rest in order in the same
buffer. -/
def removeIfM {m : Type → Type} [Monad m] (s : Store α) (p : α → m Bool) : m (Store α) :=
  s.compactKeepingM fun x => (! ·) <$> p x

/-! ### Compaction that may be refused -/

/-- Asks the predicate about each element in order until it refuses; returns the answers given
and the refusal, if there was one. -/
def marksUntil {m : Type → Type} [Monad m] {ε : Type} (p : α → m (Except ε Bool)) :
    List α → m (List Bool × Option ε)
  | [] => pure ([], none)
  | x :: xs => do
    match ← p x with
    | .error e => pure ([], some e)
    | .ok b =>
      let (bs, r) ← marksUntil p xs
      pure (b :: bs, r)

/-- Moves the first element of a list to its end. -/
def rotate : List α → List α
  | [] => []
  | a :: as => as ++ [a]

@[simp] theorem length_rotate (as : List α) : (rotate as).length = as.length := by
  cases as <;> simp [rotate]

/-- **The in-place sweep**: the arrangement left after judging the elements by the given marks.
`kept` holds the accepted elements so far and `aside` the rejected ones that sit between them
and the unjudged rest. An accepted element is swapped with the first element set aside, which
therefore moves to the end of `aside`. -/
def sweep : List α → List α → List α → List Bool → List α
  | kept, aside, x :: xs, b :: bs =>
    if b then sweep (kept ++ [x]) (rotate aside) xs bs
    else sweep kept (aside ++ [x]) xs bs
  | kept, aside, xs, _ => kept ++ aside ++ xs

/-- The sweep only rearranges: it has as many elements as it started with. -/
theorem length_sweep (kept aside xs : List α) (bs : List Bool) :
    (sweep kept aside xs bs).length = kept.length + aside.length + xs.length := by
  induction xs generalizing kept aside bs with
  | nil => cases bs <;> simp [sweep]
  | cons x xs ih =>
    cases bs with
    | nil => simp [sweep]; omega
    | cons b bs =>
      cases b <;> simp [sweep, ih] <;> omega

/-- **Compaction that may be refused**: sweeps the elements in place, swapping each accepted
one into the next kept slot. When the predicate answers for every element the store keeps the
accepted ones; at the first refusal it stops and keeps every element, in the arrangement the
swaps have reached. -/
def tryCompactKeepingM {m : Type → Type} [Monad m] {ε : Type} (s : Store α)
    (p : α → m (Except ε Bool)) : m (Except ε Unit × Store α) := do
  let (marks, refusal) ← marksUntil p s.items
  match refusal with
  | none => pure (.ok (), s.keep (keepMarked s.items marks) (length_keepMarked_le _ _))
  | some e =>
    pure (.error e, s.keep (sweep [] [] s.items marks) (by simp [length_sweep]))

/-! ### Order -/

/-- Reverses the elements in the same buffer. -/
def reverse (s : Store α) : Store α := s.keep s.items.reverse (by simp)

/-- The same buffer holding `xs` in place of the elements, when they fit in it, as a
rearrangement of the elements always does; otherwise the store is left as it is. -/
def arrange (s : Store α) (xs : List α) : Store α :=
  if h : xs.length ≤ s.capacity then ⟨xs, s.capacity, s.reallocations, h⟩ else s

/-- **Sorts stably by a comparison** that may have effects: `lt a b` asks whether `a` must
stand before `b`, in the order in which `ArrayFlow.Sorting.stableM` asks. -/
def sortWithM {m : Type → Type} [Monad m] [Inhabited α] (s : Store α) (lt : α → α → m Bool) :
    m (Store α) := do
  pure (s.arrange (← Sorting.stableM lt s.items))

/-- Sorts stably by the order `le`. -/
def sortBy (s : Store α) (le : α → α → Bool) : Store α :=
  s.keep (s.items.mergeSort le) (by simp)

/-! ### Trimming -/

/-- **Trims when the buffer is too empty**: the threshold must lie between zero and one; an
empty buffer is never trimmed; otherwise the buffer is trimmed exactly when the unused share of
its slots exceeds the threshold. Tells whether it trimmed. -/
def trimIf (s : Store α) (threshold : Float) : Except Error (Bool × Store α) :=
  if 0.0 ≤ threshold ∧ threshold ≤ 1.0 then
    if s.capacity = 0 then .ok (false, s)
    else if 1.0 - s.items.length.toFloat / s.capacity.toFloat > threshold then
      .ok (true, s.trim)
    else .ok (false, s)
  else .error (.invalidArgument .loadFactorOutOfRange)

end Store

end ArrayFlow
