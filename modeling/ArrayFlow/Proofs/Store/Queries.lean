import ArrayFlow.Store.Query

/-!
# Store queries with pure functions

A query asks its functions in a monad, so that calls may be counted or may stop the run. Given
functions that answer at once, each query is the list function it stands for, with its answer
built as the query says:

* `ArrayFlow.Store.selectM_pure` – the accepted elements, appended one by one to an empty store;
* `ArrayFlow.Store.collectM_pure` – the images, in a buffer reserved for all of them;
* `ArrayFlow.Store.detectM_pure`, `ArrayFlow.Store.anySatisfyM_pure`,
  `ArrayFlow.Store.allSatisfyM_pure` – the first accepted element, whether there is one, and
  whether none is refused;
* `ArrayFlow.Store.countM_pure` and `ArrayFlow.Store.injectIntoM_pure` – the count of accepted
  elements and the left fold.
-/

namespace ArrayFlow

/-- Counting along a left fold: each accepted element adds one. -/
theorem foldl_count {α : Type} (q : α → Bool) (ys : List α) (k : Nat) :
    ys.foldl (fun n y => if q y then n + 1 else n) k = k + ys.countP q := by
  induction ys generalizing k with
  | nil => rfl
  | cons y ys ih =>
    cases hy : q y
    · simp [hy, ih]
    · simp [hy, ih]
      omega

/-- The element at the index of the first element a predicate accepts is that element. -/
theorem bind_findIdx? {α : Type} (q : α → Bool) (xs : List α) :
    (xs.findIdx? q).bind (fun i => xs[i]?) = xs.find? q := by
  induction xs with
  | nil => rfl
  | cons x xs ih =>
    rw [List.findIdx?_cons]
    cases hx : q x with
    | true => simp [hx]
    | false => simpa [hx, Option.bind_map, Function.comp_def] using ih

namespace Store

variable {m : Type → Type} [Monad m] [LawfulMonad m] {α β : Type}

/-! ### Filtering and mapping -/

theorem filterAuxM_pure (q : α → Bool) (xs acc : List α) :
    List.filterAuxM (fun x => (pure (q x) : m Bool)) xs acc =
      pure ((xs.filter q).reverse ++ acc) := by
  induction xs generalizing acc with
  | nil => rfl
  | cons x xs ih => cases hx : q x <;> simp [List.filterAuxM, hx, ih]

/-- Filtering by a pure predicate in a monad is filtering. -/
theorem filterM_pure (q : α → Bool) (xs : List α) :
    xs.filterM (fun x => (pure (q x) : m Bool)) = pure (xs.filter q) := by
  simp [List.filterM, filterAuxM_pure]

/-- **Selection by a pure predicate**: the accepted elements, appended to an empty store. -/
theorem selectM_pure (s : Store α) (q : α → Bool) :
    s.selectM (fun x => (pure (q x) : m Bool)) = pure (ofAppends (s.items.filter q)) := by
  simp [selectM, filterM_pure]

/-- **Mapping by a pure function**: the images, in a buffer reserved for all of them. -/
theorem collectM_pure (s : Store α) (f : α → β) :
    s.collectM (fun x => (pure (f x) : m β)) =
      pure ((withCapacity s.items.length).appendEach (s.items.map f)) := by
  simp [collectM]

/-! ### Searching -/

theorem firstIndexM_pure (q : α → Bool) (xs : List α) :
    firstIndexM (fun x => (pure (q x) : m Bool)) xs = pure (xs.findIdx? q) := by
  induction xs with
  | nil => rfl
  | cons x xs ih => cases hx : q x <;> simp [firstIndexM, hx, ih, List.findIdx?_cons]

/-- The first element a pure predicate accepts. -/
theorem detectM_pure (s : Store α) (q : α → Bool) :
    s.detectM (fun x => (pure (q x) : m Bool)) = pure (s.items.find? q) := by
  simp [detectM, detectIndexM, firstIndexM_pure, bind_findIdx?]

/-- Whether a pure predicate accepts some element. -/
theorem anySatisfyM_pure (s : Store α) (q : α → Bool) :
    s.anySatisfyM (fun x => (pure (q x) : m Bool)) = pure (s.items.any q) := by
  simp [anySatisfyM, detectIndexM, firstIndexM_pure, List.findIdx?_isSome]

/-- Whether a pure predicate accepts every element. -/
theorem allSatisfyM_pure (s : Store α) (q : α → Bool) :
    s.allSatisfyM (fun x => (pure (q x) : m Bool)) = pure (s.items.all q) := by
  have hnot : (fun x => (! ·) <$> (pure (q x) : m Bool)) = fun x => pure (!q x) := by
    funext x
    simp
  simp only [allSatisfyM, detectIndexM, hnot, firstIndexM_pure, pure_bind]
  simp [List.findIdx?_isNone]

/-! ### Counting and folding -/

/-- The number of elements a pure predicate accepts. -/
theorem countM_pure (s : Store α) (q : α → Bool) :
    s.countM (fun x => (pure (q x) : m Bool)) = pure (s.items.countP q) := by
  have hstep : (fun n x => (do pure (if ← (pure (q x) : m Bool) then n + 1 else n))) =
      fun n x => pure (if q x then n + 1 else n) := by
    funext n x
    simp
  rw [countM, hstep, List.foldlM_pure, foldl_count, Nat.zero_add]

/-- **Folding by a pure step** is the left fold of the elements. -/
theorem injectIntoM_pure {γ : Type} (s : Store α) (init : γ) (f : γ → α → γ) :
    s.injectIntoM init (fun acc x => (pure (f acc x) : m γ)) = pure (s.items.foldl f init) := by
  simp [injectIntoM]

end Store

end ArrayFlow
