import Mathlib.Data.List.Basic
import ArrayFlow.Store.Edit
import ArrayFlow.Proofs.Store.Queries
import ArrayFlow.Proofs.Store.Insertions
import ArrayFlow.Proofs.Store.Searches

/-!
# Five ways to split a store by a predicate

Selection, rejection, partition, counting and compaction all split a store's elements by one
predicate, each by a mechanism of its own: a filter in the monad, a negating wrapper, one pass
with two result stores, a counting fold, and marks that decide which elements stay in the
buffer. For a pure predicate that announces its calls (`ArrayFlow.Store.announced`) each of them
asks about every element once, in order, and they agree:

* `ArrayFlow.Store.partitionM_announced` – the two parts of a partition are the selected and the
  rejected elements, each appended one by one to an empty store, buffers included, so they are
  the stores that `ArrayFlow.Store.selectM_announced` and `ArrayFlow.Store.rejectM_announced`
  build;
* `ArrayFlow.Store.countM_announced` – the count is the number of selected elements;
* `ArrayFlow.Store.compactKeepingM_announced` and `ArrayFlow.Store.removeIfM_announced` –
  compaction keeps the selected elements and removal the rejected ones, in the buffer the store
  had.

The main statement is `ArrayFlow.Store.predicate_splits_agree`.
-/

namespace ArrayFlow

namespace Store

variable {m : Type → Type} [Monad m] [LawfulMonad m] {α : Type}
variable (note : α → m Unit) (q : α → Bool)

theorem filterAuxM_announced (xs acc : List α) :
    List.filterAuxM (announced note q) xs acc =
      (do xs.forM note; pure ((xs.filter q).reverse ++ acc)) := by
  induction xs generalizing acc with
  | nil => simp [List.filterAuxM]
  | cons x xs ih => cases hx : q x <;> simp [List.filterAuxM, announced, hx, ih]

/-- Filtering by an announcing predicate asks about every element, in order. -/
theorem filterM_announced (xs : List α) :
    xs.filterM (announced note q) = (do xs.forM note; pure (xs.filter q)) := by
  simp [List.filterM, filterAuxM_announced]

variable (s : Store α)

/-- **Selection** asks about every element and appends the accepted ones to an empty store. -/
theorem selectM_announced :
    s.selectM (announced note q) = (do s.items.forM note; pure (ofAppends (s.items.filter q))) := by
  simp [selectM, filterM_announced]

theorem rejectM_announced :
    s.rejectM (announced note q) =
      (do s.items.forM note; pure (ofAppends (s.items.filter fun x => !q x))) := by
  rw [rejectM, not_announced, selectM_announced]

/-- **A partition** asks about every element once and appends the accepted and the rejected
ones to an empty store each. -/
theorem partitionM_announced :
    s.partitionM (announced note q) =
      (do s.items.forM note
          pure (ofAppends (s.items.filter q), ofAppends (s.items.filter fun x => !q x))) := by
  -- the marks of the rejected elements are the negated marks of the accepted ones
  have hnot : (s.items.map q).map (!·) = s.items.map fun x => !q x := by simp
  simp [partitionM, mapM_announced, hnot]

theorem countM_announced :
    s.countM (announced note q) = (do s.items.forM note; pure (s.items.filter q).length) := by
  have hstep : (fun n x => (do pure (if ← announced note q x then n + 1 else n) : m Nat)) =
      fun n x => (do note x; pure (if q x then n + 1 else n)) := by
    funext n x
    simp [announced]
  rw [countM, hstep, foldlM_announced, foldl_count, Nat.zero_add, List.countP_eq_length_filter]

/-- **Compaction** asks about every element and keeps the accepted ones in the same buffer. -/
theorem compactKeepingM_announced :
    s.compactKeepingM (announced note q) =
      (do s.items.forM note
          pure (s.keep (s.items.filter q) (List.length_filter_le q s.items))) := by
  simp [compactKeepingM, mapM_announced]

theorem removeIfM_announced :
    s.removeIfM (announced note q) =
      (do s.items.forM note
          pure (s.keep (s.items.filter fun x => !q x) (List.length_filter_le _ s.items))) := by
  rw [removeIfM, not_announced, compactKeepingM_announced]

/-- **Five splits agree.** Let a pure predicate `q` announce its calls by `note`, in any lawful
monad. Selection, rejection, partition, counting, compaction and removal each ask about every
element once, in order. The partition answers exactly the stores that selection and rejection
answer – their elements, capacities and counts of replacements alike – and these are the
accepted and the rejected elements in their order, each appended one by one to an empty store.
Together they have as many elements as the store, and the count is the number selected.
Compaction leaves the selected elements in the buffer the store had, with its capacity and
count, and removal leaves the rejected ones. -/
theorem predicate_splits_agree :
    ∃ sel rej : Store α,
      s.partitionM (announced note q) = (do s.items.forM note; pure (sel, rej)) ∧
      s.selectM (announced note q) = (do s.items.forM note; pure sel) ∧
      s.rejectM (announced note q) = (do s.items.forM note; pure rej) ∧
      sel = (s.items.filter q).foldl append empty ∧
      rej = (s.items.filter fun x => !q x).foldl append empty ∧
      sel.items = s.items.filter q ∧ rej.items = s.items.filter (fun x => !q x) ∧
      sel.items.length + rej.items.length = s.items.length ∧
      s.countM (announced note q) = (do s.items.forM note; pure sel.items.length) ∧
      ∃ kept rest : Store α,
        s.compactKeepingM (announced note q) = (do s.items.forM note; pure kept) ∧
        s.removeIfM (announced note q) = (do s.items.forM note; pure rest) ∧
        kept.items = sel.items ∧ kept.capacity = s.capacity ∧
        kept.reallocations = s.reallocations ∧
        rest.items = rej.items ∧ rest.capacity = s.capacity ∧
        rest.reallocations = s.reallocations := by
  refine ⟨_, _, partitionM_announced note q s, selectM_announced note q s,
    rejectM_announced note q s, appendEach_eq_foldl empty _, appendEach_eq_foldl empty _,
    items_ofAppends _, items_ofAppends _, ?_, ?_, _, _, compactKeepingM_announced note q s,
    removeIfM_announced note q s, rfl, rfl, rfl, rfl, rfl, rfl⟩
  · simp only [items_ofAppends]
    exact (List.length_eq_length_filter_add q).symm
  · rw [countM_announced, items_ofAppends]

/-- The store `1, …, 10` split by evenness, the predicate counting its calls: the partition asks
ten questions and answers the even and the odd elements, the five even ones in a buffer of
`7` slots, grown four times from nothing. -/
theorem evens_and_odds_of_ten :
    let s : Store Nat := ofList (List.range' 1 10)
    let note : Nat → StateM Nat Unit := fun _ => modify (· + 1)
    ∃ sel rej : Store Nat, (s.partitionM (announced note (· % 2 == 0))).run 0 = ((sel, rej), 10) ∧
      sel.items = [2, 4, 6, 8, 10] ∧ rej.items = [1, 3, 5, 7, 9] ∧
      sel.capacity = 7 ∧ sel.reallocations = 4 := by
  intro s note
  obtain ⟨sel, rej, hpart, -, -, hsel, -, hselItems, hrejItems, -⟩ :=
    predicate_splits_agree note (· % 2 == 0) s
  refine ⟨sel, rej, by rw [hpart]; rfl, hselItems, hrejItems, ?_, ?_⟩
  · rw [hsel]; rfl
  · rw [hsel]; rfl

end Store

end ArrayFlow
