import Mathlib.Logic.ExistsUnique
import ArrayFlow.Store.Query

/-!
# Searches that stop at the first decision

A search of a store asks its predicate about the elements first to last and stops at the first
element that decides it. Which elements it asks about can be seen by letting the predicate
**announce** its calls (`ArrayFlow.Store.announced`): asked about `x`, in any monad, it first
performs `note x` and then answers as a pure predicate does. A search of such a predicate is then
a sequence of announcements followed by an answer, and the announcements say which elements were
asked about, and in which order.

Where a search by `q` stops is described by `ArrayFlow.Store.StopsAt`: `q` refuses every element
before the index and accepts the element at it, if there is one; when `q` accepts nothing, the
index is the length. Every list has exactly one such index (`ArrayFlow.Store.stopsAt_iff`).

* `ArrayFlow.Store.mapM_announced`, `ArrayFlow.Store.foldlM_announced` – a walk that does not
  stop asks about every element once, in order;
* `ArrayFlow.Store.firstIndexM_of_stopsAt` – **the search asks up to where it stops**: about the
  elements up to and including the index, in order, and answers the index when it is an element's;
* the searches for an accepted element – `detectIndexM`, `detectM`, `anySatisfyM`,
  `noneSatisfyM` – stop where `q` does; `allSatisfyM` and the cuts at the longest accepted prefix
  – `takeWhileM`, `dropWhileM`, `partitionWhileM` – search for a refused element, and stop where
  `!q` does. The two cuts meet there: the prefix is accepted throughout, and what follows it
  starts with a refused element.

The main statement is `ArrayFlow.Store.searches_stop_at_first_decision`.
-/

namespace ArrayFlow

namespace Store

variable {α β : Type}

/-- A pure function that **announces** each call: asked about `x`, it performs `note x`, then
answers `f x`. -/
def announced {m : Type → Type} [Monad m] (note : α → m Unit) (f : α → β) (x : α) : m β := do
  note x
  pure (f x)

/-! ### Where a search stops -/

/-- **Where a search by `q` stops** in `xs`: `q` refuses every element before index `i`, and
accepts the element at `i`, if there is one. When `q` accepts no element, this is the length. -/
structure StopsAt (q : α → Bool) (xs : List α) (i : Nat) : Prop where
  le_length : i ≤ xs.length
  refused : ∀ y ∈ xs.take i, q y = false
  accepted : ∀ y ∈ xs[i]?, q y = true

theorem stopsAt_nil_iff {q : α → Bool} {i : Nat} : StopsAt q [] i ↔ i = 0 := by
  constructor
  · intro h
    simpa using h.le_length
  · rintro rfl
    exact ⟨Nat.le_refl _, by simp, by simp⟩

theorem stopsAt_cons_zero {q : α → Bool} {x : α} {xs : List α} :
    StopsAt q (x :: xs) 0 ↔ q x = true := by
  constructor
  · intro h
    exact h.accepted x rfl
  · intro hx
    exact ⟨Nat.zero_le _, by simp, by simpa using hx⟩

theorem stopsAt_cons_succ {q : α → Bool} {x : α} {xs : List α} {i : Nat} :
    StopsAt q (x :: xs) (i + 1) ↔ q x = false ∧ StopsAt q xs i := by
  constructor
  · rintro ⟨hle, href, hacc⟩
    exact ⟨href x (by simp), by simpa using hle, fun y hy => href y (by simp [hy]),
      by simpa using hacc⟩
  · rintro ⟨hx, hle, href, hacc⟩
    refine ⟨by simpa using hle, ?_, by simpa using hacc⟩
    simp only [List.take_succ_cons, List.mem_cons]
    rintro y (rfl | hy)
    · exact hx
    · exact href y hy

/-- **A search stops at one place**: the index of the first accepted element, or the length. -/
theorem stopsAt_iff {q : α → Bool} {xs : List α} {i : Nat} :
    StopsAt q xs i ↔ i = xs.findIdx q := by
  induction xs generalizing i with
  | nil => simp [stopsAt_nil_iff]
  | cons x xs ih =>
    cases i with
    | zero => cases hx : q x <;> simp [stopsAt_cons_zero, List.findIdx_cons, hx]
    | succ i => cases hx : q x <;> simp [stopsAt_cons_succ, List.findIdx_cons, hx, ih]

theorem existsUnique_stopsAt (q : α → Bool) (xs : List α) : ∃! i, StopsAt q xs i :=
  ⟨xs.findIdx q, stopsAt_iff.mpr rfl, fun _ hj => stopsAt_iff.mp hj⟩

theorem StopsAt.any_eq {q : α → Bool} {xs : List α} {i : Nat} (h : StopsAt q xs i) :
    xs.any q = decide (i < xs.length) := by
  obtain rfl := stopsAt_iff.mp h
  simp [List.findIdx_lt_length, List.any_eq]

theorem StopsAt.getD_eq {q : α → Bool} {xs : List α} {i : Nat} (h : StopsAt q xs i) :
    (if i < xs.length then some i else none).getD xs.length = i := by
  split
  · rfl
  · next hi => exact Nat.le_antisymm (Nat.le_of_not_lt hi) h.le_length

/-! The search for a refused element stops at the end of the longest accepted prefix. -/

section Refused

variable {q : α → Bool} {xs : List α} {j : Nat}

theorem StopsAt.all_eq (h : StopsAt (fun x => !q x) xs j) : xs.all q = decide (j = xs.length) := by
  obtain rfl := stopsAt_iff.mp h
  simp [List.findIdx_eq_length, List.all_eq]

theorem StopsAt.take_accepted (h : StopsAt (fun x => !q x) xs j) : ∀ y ∈ xs.take j, q y = true := by
  intro y hy
  simpa using h.refused y hy

theorem StopsAt.head_drop_refused (h : StopsAt (fun x => !q x) xs j) :
    ∀ y ∈ (xs.drop j).head?, q y = false := by
  intro y hy
  rw [List.head?_drop] at hy
  simpa using h.accepted y hy

end Refused

/-! ### Walks of an announcing function -/

variable {m : Type → Type} [Monad m] [LawfulMonad m]

/-- A walk that asks about every element asks about each once, in order. -/
theorem mapM_announced (note : α → m Unit) (f : α → β) (xs : List α) :
    xs.mapM (announced note f) = (do xs.forM note; pure (xs.map f)) := by
  induction xs with
  | nil => simp
  | cons x xs ih => simp [announced, ih]

/-- A fold whose step announces the element it takes. -/
theorem foldlM_announced {γ : Type} (note : α → m Unit) (g : γ → α → γ) (xs : List α)
    (init : γ) :
    xs.foldlM (fun acc x => do note x; pure (g acc x)) init =
      (do xs.forM note; pure (xs.foldl g init)) := by
  induction xs generalizing init with
  | nil => simp
  | cons x xs ih =>
    simp only [List.foldlM_cons, List.foldl_cons, bind_assoc, pure_bind, ih, List.forM_eq_forM,
      List.forM_cons]

/-! ### Searches of an announcing predicate -/

theorem firstIndexM_announced (note : α → m Unit) (q : α → Bool) (xs : List α) :
    firstIndexM (announced note q) xs =
      (do (xs.take (xs.findIdx q + 1)).forM note; pure (xs.findIdx? q)) := by
  induction xs with
  | nil => simp [firstIndexM]
  | cons x xs ih =>
    cases hx : q x <;>
      simp [firstIndexM, announced, hx, ih, List.findIdx_cons, List.findIdx?_cons]

/-- **A search asks up to where it stops**, and answers the index there if it is an element's. -/
theorem firstIndexM_of_stopsAt (note : α → m Unit) {q : α → Bool} {xs : List α} {i : Nat}
    (h : StopsAt q xs i) :
    firstIndexM (announced note q) xs =
      (do (xs.take (i + 1)).forM note; pure (if i < xs.length then some i else none)) := by
  obtain rfl := stopsAt_iff.mp h
  rw [firstIndexM_announced, List.findIdx?_eq_guard_findIdx_lt]
  simp [Option.guard]

/-- A predicate announced and then negated is the negation announced. -/
theorem not_announced (note : α → m Unit) (q : α → Bool) :
    (fun x => (! ·) <$> announced note q x) = announced note (fun x => !q x) := by
  funext x
  simp [announced]

variable (s : Store α) (note : α → m Unit) {q : α → Bool} {i : Nat}

theorem detectIndexM_of_stopsAt (h : StopsAt q s.items i) :
    s.detectIndexM (announced note q) =
      (do (s.items.take (i + 1)).forM note
          pure (if i < s.items.length then some i else none)) :=
  firstIndexM_of_stopsAt note h

theorem detectM_of_stopsAt (h : StopsAt q s.items i) :
    s.detectM (announced note q) = (do (s.items.take (i + 1)).forM note; pure s.items[i]?) := by
  rw [detectM, detectIndexM_of_stopsAt s note h]
  simp only [bind_assoc, pure_bind]
  split
  · rfl
  · next hi => simp [List.getElem?_eq_none (Nat.le_of_not_lt hi)]

theorem anySatisfyM_of_stopsAt (h : StopsAt q s.items i) :
    s.anySatisfyM (announced note q) =
      (do (s.items.take (i + 1)).forM note; pure (s.items.any q)) := by
  have hsome : (if i < s.items.length then some i else none).isSome =
      decide (i < s.items.length) := by
    by_cases hi : i < s.items.length <;> simp [hi]
  simp [anySatisfyM, detectIndexM_of_stopsAt s note h, hsome, h.any_eq]

theorem noneSatisfyM_of_stopsAt (h : StopsAt q s.items i) :
    s.noneSatisfyM (announced note q) =
      (do (s.items.take (i + 1)).forM note; pure !(s.items.any q)) := by
  simp [noneSatisfyM, anySatisfyM_of_stopsAt s note h]

/-- Whether every element is accepted: the search for a refused one. -/
theorem allSatisfyM_of_stopsAt (h : StopsAt (fun x => !q x) s.items i) :
    s.allSatisfyM (announced note q) =
      (do (s.items.take (i + 1)).forM note; pure (s.items.all q)) := by
  have hnone : (if i < s.items.length then some i else none).isNone =
      decide (i = s.items.length) := by
    by_cases hi : i < s.items.length
    · simp [hi, Nat.ne_of_lt hi]
    · simp [Nat.le_antisymm h.le_length (Nat.le_of_not_lt hi)]
  simp [allSatisfyM, not_announced, detectIndexM_of_stopsAt s note h, h.all_eq, hnone]

theorem takeWhileM_of_stopsAt (h : StopsAt (fun x => !q x) s.items i) :
    s.takeWhileM (announced note q) =
      (do (s.items.take (i + 1)).forM note; pure (ofList (s.items.take i))) := by
  simp [takeWhileM, not_announced, detectIndexM_of_stopsAt s note h, h.getD_eq]

theorem dropWhileM_of_stopsAt (h : StopsAt (fun x => !q x) s.items i) :
    s.dropWhileM (announced note q) =
      (do (s.items.take (i + 1)).forM note; pure (ofList (s.items.drop i))) := by
  simp [dropWhileM, not_announced, detectIndexM_of_stopsAt s note h, h.getD_eq]

theorem partitionWhileM_of_stopsAt (h : StopsAt (fun x => !q x) s.items i) :
    s.partitionWhileM (announced note q) =
      (do (s.items.take (i + 1)).forM note
          pure (ofList (s.items.take i), ofList (s.items.drop i))) := by
  simp [partitionWhileM, not_announced, detectIndexM_of_stopsAt s note h, h.getD_eq]

/-- **Searches stop at the first decision.** Let a pure predicate `q` announce its calls by
`note`, in any lawful monad.

* A search for an accepted element stops at the one index `i` where `q` does (`StopsAt`): the
  least index of an accepted element, or the length when there is none. It asks about the
  elements up to and including index `i`, in order – all of them when none is accepted – and
  then `detectIndexM` answers `i` if it is an element's index, `detectM` the element there,
  `anySatisfyM` whether some element is accepted and `noneSatisfyM` the opposite.
* `allSatisfyM` searches for a refused element instead: it stops at the one index `j` where
  `!q` does – the first refused element, or the length – and asks up to and including it, so
  nothing on an empty store. The cuts at the longest accepted prefix ask the same and answer,
  as copies with buffers of exactly their length, the elements before `j` and those from `j`
  on: together they are the store's elements, the first are all accepted, and the second, if
  any, start with a refused element. -/
theorem searches_stop_at_first_decision (q : α → Bool) :
    (∃! i, StopsAt q s.items i) ∧ (∃! j, StopsAt (fun x => !q x) s.items j) ∧
    (∀ i, StopsAt q s.items i →
      s.detectIndexM (announced note q) =
        (do (s.items.take (i + 1)).forM note
            pure (if i < s.items.length then some i else none)) ∧
      s.detectM (announced note q) =
        (do (s.items.take (i + 1)).forM note; pure s.items[i]?) ∧
      s.anySatisfyM (announced note q) =
        (do (s.items.take (i + 1)).forM note; pure (s.items.any q)) ∧
      s.noneSatisfyM (announced note q) =
        (do (s.items.take (i + 1)).forM note; pure !(s.items.any q))) ∧
    (∀ j, StopsAt (fun x => !q x) s.items j →
      s.allSatisfyM (announced note q) =
        (do (s.items.take (j + 1)).forM note; pure (s.items.all q)) ∧
      ∃ pre post : Store α,
        s.takeWhileM (announced note q) = (do (s.items.take (j + 1)).forM note; pure pre) ∧
        s.dropWhileM (announced note q) = (do (s.items.take (j + 1)).forM note; pure post) ∧
        s.partitionWhileM (announced note q) =
          (do (s.items.take (j + 1)).forM note; pure (pre, post)) ∧
        pre.items = s.items.take j ∧ post.items = s.items.drop j ∧
        pre.items ++ post.items = s.items ∧
        (∀ y ∈ pre.items, q y = true) ∧ (∀ y ∈ post.items.head?, q y = false) ∧
        pre.capacity = pre.items.length ∧ pre.reallocations = 0 ∧
        post.capacity = post.items.length ∧ post.reallocations = 0) := by
  refine ⟨existsUnique_stopsAt q s.items, existsUnique_stopsAt _ s.items, fun i h => ?_,
    fun j h => ?_⟩
  · exact ⟨detectIndexM_of_stopsAt s note h, detectM_of_stopsAt s note h,
      anySatisfyM_of_stopsAt s note h, noneSatisfyM_of_stopsAt s note h⟩
  · refine ⟨allSatisfyM_of_stopsAt s note h, _, _, takeWhileM_of_stopsAt s note h,
      dropWhileM_of_stopsAt s note h, partitionWhileM_of_stopsAt s note h, rfl, rfl,
      List.take_append_drop j s.items, h.take_accepted, h.head_drop_refused, rfl, rfl, rfl, rfl⟩

/-- The store `1, 2, 3, 10, 4, 5`, its predicates logging each element they are asked about:
the first element of at least `8` is at index `3`, found after four questions, and the longest
prefix below `5` is `1, 2, 3`, cut after the same four. -/
theorem searches_of_six_stop_at_ten :
    let s : Store Nat := ofList [1, 2, 3, 10, 4, 5]
    let note : Nat → StateM (List Nat) Unit := fun x => modify (· ++ [x])
    (s.detectIndexM (announced note (8 ≤ ·))).run [] = (some 3, [1, 2, 3, 10]) ∧
      ∃ pre : Store Nat, (s.takeWhileM (announced note (· < 5))).run [] = (pre, [1, 2, 3, 10]) ∧
        pre.items = [1, 2, 3] ∧ pre.capacity = 3 := by
  intro s note
  obtain ⟨-, -, hfind, -⟩ := searches_stop_at_first_decision s note (8 ≤ ·)
  obtain ⟨-, -, -, hcut⟩ := searches_stop_at_first_decision s note (· < 5)
  obtain ⟨hindex, -⟩ := hfind 3 (stopsAt_iff.mpr (by decide))
  obtain ⟨-, pre, post, htake, -, -, hpre, -, -, -, -, hcap, -⟩ :=
    hcut 3 (stopsAt_iff.mpr (by decide))
  refine ⟨by rw [hindex]; rfl, pre, by rw [htake]; rfl, hpre, by rw [hcap, hpre]; rfl⟩

end Store

end ArrayFlow
