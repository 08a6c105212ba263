import Mathlib.Data.List.Basic
import ArrayFlow.Store.Query

/-!
# First occurrences

`ArrayFlow.Store.firstOccurrences seen xs` walks `xs` and keeps each element that is neither
in `seen` nor met before it: the **first occurrence** of every new value, in order. A store drops
its repeats this way (`ArrayFlow.Store.distinct`), and a strategy drops them in two rounds, once
within each batch and once across the batches (`ArrayFlow.Strategy.distinct`).

* `mem_firstOccurrences`, `nodup_firstOccurrences`, `pairwise_firstOccurrences` – what the walk
  keeps: every value of `xs` that is not in `seen`, once, in the order of its first occurrence
  in `xs`;
* `firstOccurrences_congr` – of `seen` only its values matter, not their order or repeats;
* `firstOccurrences_append` – a walk over `xs ++ ys` is a walk over `xs`, then a walk over `ys`
  with the values of `xs` seen as well;
* `firstOccurrences_flatten_map` – **dropping repeats in two rounds**, first within each part and
  then across the parts put end to end, is dropping them once.

Equality of elements is a lawful `BEq`, so that `seen.contains x` is `x ∈ seen`.
-/

namespace ArrayFlow

namespace Store

variable {α : Type} [BEq α]

@[simp] theorem firstOccurrences_nil (seen : List α) : firstOccurrences seen [] = [] := rfl

variable [LawfulBEq α]

theorem firstOccurrences_cons (seen : List α) (x : α) (xs : List α) :
    firstOccurrences seen (x :: xs) =
      if x ∈ seen then firstOccurrences seen xs else x :: firstOccurrences (x :: seen) xs := by
  simp only [firstOccurrences, List.contains_iff_mem]

/-! ### What the walk keeps -/

/-- **A value is kept** exactly when it occurs and was not seen before the walk. -/
theorem mem_firstOccurrences (seen xs : List α) (y : α) :
    y ∈ firstOccurrences seen xs ↔ y ∈ xs ∧ y ∉ seen := by
  induction xs generalizing seen with
  | nil => simp
  | cons x xs ih =>
    rw [firstOccurrences_cons]
    by_cases hx : x ∈ seen
    · -- `x` itself is seen, so it is never kept
      rw [if_pos hx, ih]
      by_cases hy : y = x
      · subst hy
        simp [hx]
      · simp [hy]
    · rw [if_neg hx, List.mem_cons, ih]
      by_cases hy : y = x
      · subst hy
        simp [hx]
      · simp [hy]

/-- Nothing kept was seen before the walk. -/
theorem not_mem_of_mem_firstOccurrences {seen xs : List α} {y : α}
    (h : y ∈ firstOccurrences seen xs) : y ∉ seen :=
  ((mem_firstOccurrences seen xs y).mp h).2

/-- **Each value is kept once.** -/
theorem nodup_firstOccurrences (seen xs : List α) : (firstOccurrences seen xs).Nodup := by
  induction xs generalizing seen with
  | nil => exact List.nodup_nil
  | cons x xs ih =>
    rw [firstOccurrences_cons]
    split
    · exact ih seen
    · refine List.nodup_cons.mpr ⟨fun hx => ?_, ih (x :: seen)⟩
      exact not_mem_of_mem_firstOccurrences hx List.mem_cons_self

/-- Positions in `x :: xs` of the values that are not `x` are one past their positions in
`xs`, so an order between them carries over. -/
theorem idxOf_lt_cons {x a b : α} {xs : List α} (ha : a ≠ x) (hb : b ≠ x)
    (h : xs.idxOf a < xs.idxOf b) : (x :: xs).idxOf a < (x :: xs).idxOf b := by
  rw [List.idxOf_cons_ne xs (Ne.symm ha), List.idxOf_cons_ne xs (Ne.symm hb)]
  exact Nat.succ_lt_succ h

/-- **The values kept stand in the order of their first occurrences** in the walked list. -/
theorem pairwise_firstOccurrences (seen xs : List α) :
    (firstOccurrences seen xs).Pairwise (fun a b => xs.idxOf a < xs.idxOf b) := by
  induction xs generalizing seen with
  | nil => exact List.Pairwise.nil
  | cons x xs ih =>
    rw [firstOccurrences_cons]
    split
    · next hx =>
      -- every value kept was not seen, so it is not `x`
      refine (ih seen).imp_of_mem fun ha hb hab => idxOf_lt_cons ?_ ?_ hab
      · exact fun h => not_mem_of_mem_firstOccurrences ha (h ▸ hx)
      · exact fun h => not_mem_of_mem_firstOccurrences hb (h ▸ hx)
    · have hne : ∀ {a}, a ∈ firstOccurrences (x :: seen) xs → a ≠ x :=
        fun ha h => not_mem_of_mem_firstOccurrences ha (h ▸ List.mem_cons_self)
      refine List.pairwise_cons.mpr ⟨fun b hb => ?_, ?_⟩
      · rw [List.idxOf_cons_self, List.idxOf_cons_ne xs (Ne.symm (hne hb))]
        exact Nat.succ_pos _
      · exact (ih (x :: seen)).imp_of_mem fun ha hb hab => idxOf_lt_cons (hne ha) (hne hb) hab

/-! ### Walks that agree -/

/-- Of the values seen before the walk, only which they are matters. -/
theorem firstOccurrences_congr {seen seen' : List α} (h : ∀ y, y ∈ seen ↔ y ∈ seen')
    (xs : List α) : firstOccurrences seen xs = firstOccurrences seen' xs := by
  induction xs generalizing seen seen' with
  | nil => rfl
  | cons x xs ih =>
    rw [firstOccurrences_cons, firstOccurrences_cons]
    by_cases hx : x ∈ seen
    · rw [if_pos hx, if_pos ((h x).mp hx)]
      exact ih h
    · rw [if_neg hx, if_neg fun hx' => hx ((h x).mpr hx')]
      congr 1
      exact ih fun y => by simp [h y]

/-- **A walk over a concatenation** walks the first part, then the second with the values of the
first part seen as well. -/
theorem firstOccurrences_append (seen xs ys : List α) :
    firstOccurrences seen (xs ++ ys) =
      firstOccurrences seen xs ++ firstOccurrences (xs ++ seen) ys := by
  induction xs generalizing seen with
  | nil => rfl
  | cons x xs ih =>
    rw [List.cons_append, firstOccurrences_cons, firstOccurrences_cons]
    split
    · next hx =>
      -- `x` was seen already, so seeing it again changes nothing
      rw [ih]
      congr 1
      refine firstOccurrences_congr (fun y => ?_) ys
      simp only [List.mem_append, List.mem_cons]
      grind
    · rw [ih, List.cons_append]
      congr 2
      refine firstOccurrences_congr (fun y => ?_) ys
      simp only [List.mem_append, List.mem_cons]
      grind

/-- Walking what a walk with fewer values seen kept is walking the original list. -/
theorem firstOccurrences_firstOccurrences {seen seen' : List α} (h : ∀ y ∈ seen', y ∈ seen)
    (xs : List α) :
    firstOccurrences seen (firstOccurrences seen' xs) = firstOccurrences seen xs := by
  induction xs generalizing seen seen' with
  | nil => rfl
  | cons x xs ih =>
    rw [firstOccurrences_cons seen' x xs]
    split
    · next hx' =>
      rw [ih h, firstOccurrences_cons, if_pos (h x hx')]
    · rw [firstOccurrences_cons, firstOccurrences_cons]
      split
      · next hx => exact ih fun y hy => by rcases List.mem_cons.mp hy with rfl | hy <;> grind
      · congr 1
        exact ih fun y hy => by rcases List.mem_cons.mp hy with rfl | hy <;> grind

/-- **Dropping repeats in two rounds** – first within each part, then across the parts put end
to end – is dropping them from the parts put end to end at once. -/
theorem firstOccurrences_flatten_map (seen : List α) (parts : List (List α)) :
    firstOccurrences seen (parts.map (firstOccurrences [])).flatten =
      firstOccurrences seen parts.flatten := by
  induction parts generalizing seen with
  | nil => rfl
  | cons p ps ih =>
    have hsame : ∀ y, y ∈ firstOccurrences [] p ++ seen ↔ y ∈ p ++ seen := by
      intro y
      simp [mem_firstOccurrences]
    rw [List.map_cons, List.flatten_cons, List.flatten_cons, firstOccurrences_append,
      firstOccurrences_append, firstOccurrences_firstOccurrences (fun y hy => by simp at hy),
      firstOccurrences_congr hsame, ih]

end Store

end ArrayFlow
