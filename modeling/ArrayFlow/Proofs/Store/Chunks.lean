import Mathlib.Algebra.Order.Floor.Div
import ArrayFlow.Store.Query
import ArrayFlow.Proofs.Store.Room

/-!
# Chunks tile the store

`ArrayFlow.Store.chunk` cuts a store of `L` elements into consecutive pieces of a positive size
`n` (`ArrayFlow.Store.piecesOf`), copies each piece into a store of its own, and appends the
copies to a store whose buffer was reserved for `⌈L / n⌉` of them. The buffer is never
outgrown because the cutting gives exactly that many pieces:

* `ArrayFlow.Store.flatten_piecesOf` – the pieces, one after the other, are the list;
* `ArrayFlow.Store.length_piecesOf` – there are `⌈L / n⌉` of them;
* `ArrayFlow.Store.length_mem_piecesOf` and `ArrayFlow.Store.length_mem_dropLast_piecesOf` –
  each holds between `1` and `n` elements, and each but the last exactly `n`;
* `ArrayFlow.Store.chunk_of_pos` – the chunks are appended into room that is there, so the
  outer buffer keeps its `⌈L / n⌉` slots and is never replaced.

The main statement is `ArrayFlow.Store.chunks_tile_store`.
-/

namespace ArrayFlow

namespace Store

variable {α : Type}

/-! ### Cutting a list into pieces -/

/-- Cutting one piece of `n` off `L ≥ 1` elements leaves one piece fewer to cut. -/
theorem ceilDiv_sub_add_one {L n : Nat} (hn : 0 < n) (hL : 0 < L) :
    (L - n) ⌈/⌉ n + 1 = L ⌈/⌉ n := by
  rw [Nat.ceilDiv_eq_add_pred_div, Nat.ceilDiv_eq_add_pred_div]
  by_cases hle : L ≤ n
  · -- one piece takes every element
    have hnone : (L - n + n - 1) / n = 0 := Nat.div_eq_of_lt (by omega)
    have hone : (L + n - 1) / n = 1 := by rw [Nat.div_eq_iff hn]; omega
    rw [hnone, hone]
  · rw [← Nat.add_div_right _ hn]
    congr 1
    omega

section Pieces

variable (n : Nat) (h : 0 < n)

@[simp] theorem piecesOf_nil : piecesOf n h ([] : List α) = [] := by
  rw [piecesOf]

theorem piecesOf_cons (x : α) (xs : List α) :
    piecesOf n h (x :: xs) = (x :: xs).take n :: piecesOf n h ((x :: xs).drop n) := by
  rw [piecesOf]

@[simp] theorem piecesOf_eq_nil_iff (xs : List α) : piecesOf n h xs = [] ↔ xs = [] := by
  cases xs <;> simp [piecesOf_cons]

/-- The pieces, read one after the other, are the list. -/
@[simp] theorem flatten_piecesOf (xs : List α) : (piecesOf n h xs).flatten = xs := by
  fun_induction piecesOf n h xs with
  | case1 => rfl
  | case2 x xs ih => rw [List.flatten_cons, ih, List.take_append_drop]

/-- **There are `⌈L / n⌉` pieces.** -/
theorem length_piecesOf (xs : List α) : (piecesOf n h xs).length = xs.length ⌈/⌉ n := by
  fun_induction piecesOf n h xs with
  | case1 => simp
  | case2 x xs ih =>
    rw [List.length_cons, ih, List.length_drop,
      ceilDiv_sub_add_one h (List.length_pos_of_ne_nil (List.cons_ne_nil x xs))]

/-- Every piece holds at least one element and at most `n`. -/
theorem length_mem_piecesOf (xs : List α) :
    ∀ p ∈ piecesOf n h xs, 0 < p.length ∧ p.length ≤ n := by
  fun_induction piecesOf n h xs with
  | case1 => simp
  | case2 x xs ih =>
    intro p hp
    rcases List.mem_cons.mp hp with rfl | hp
    · simp; omega
    · exact ih p hp

/-- **Every piece before the last is full**: it holds exactly `n` elements. -/
theorem length_mem_dropLast_piecesOf (xs : List α) :
    ∀ p ∈ (piecesOf n h xs).dropLast, p.length = n := by
  fun_induction piecesOf n h xs with
  | case1 => simp
  | case2 x xs ih =>
    intro p hp
    by_cases hrest : (x :: xs).drop n = []
    · -- the first piece is the last one
      simp [hrest] at hp
    · -- more pieces follow the first, which therefore took `n` elements
      rw [List.dropLast_cons_of_ne_nil (by simpa using hrest)] at hp
      rcases List.mem_cons.mp hp with rfl | hp
      · have hmore : n < (x :: xs).length := by
          simpa [List.drop_eq_nil_iff] using hrest
        simp only [List.length_take]
        omega
      · exact ih p hp

end Pieces

/-! ### Chunks of a store -/

/-- Chunks of size zero are refused. -/
theorem chunk_zero (s : Store α) : s.chunk 0 = .error (.invalidArgument .zeroChunkSize) := rfl

/-- **Chunks of a positive size**: the copies of the pieces, appended into a buffer of
`⌈L / n⌉` slots that holds them all, so it is never replaced. -/
theorem chunk_of_pos (s : Store α) {size : Nat} (h : 0 < size) :
    ∃ t, s.chunk size = .ok t ∧ t.items = (piecesOf size h s.items).map ofList ∧
      t.capacity = s.items.length ⌈/⌉ size ∧ t.reallocations = 0 := by
  have hchunk : s.chunk size = .ok ((withCapacity (s.items.length ⌈/⌉ size)).appendEach
      ((piecesOf size h s.items).map ofList)) := by
    rw [chunk, dif_neg (Nat.pos_iff_ne_zero.mp h)]
    rfl
  have hfit : (withCapacity (s.items.length ⌈/⌉ size) : Store (Store α)).items.length +
      ((piecesOf size h s.items).map ofList).length ≤
        (withCapacity (s.items.length ⌈/⌉ size) : Store (Store α)).capacity := by
    simp [withCapacity, length_piecesOf]
  rw [appendEach_of_le _ _ hfit] at hchunk
  exact ⟨_, hchunk, by simp, rfl, rfl⟩

/-- **Chunks tile the store.** A size of zero is refused. For a size `n ≥ 1`, a store of `L`
elements gives `⌈L / n⌉` chunks which, read in order, are its elements; each holds between `1`
and `n` elements, each but the last exactly `n`, in a buffer of exactly its length never
replaced; and the chunks are held in a buffer of exactly `⌈L / n⌉` slots, never replaced. -/
theorem chunks_tile_store (s : Store α) :
    s.chunk 0 = .error (.invalidArgument .zeroChunkSize) ∧
    ∀ size, 0 < size → ∃ t, s.chunk size = .ok t ∧
      t.items.length = s.items.length ⌈/⌉ size ∧
      (t.items.map Store.items).flatten = s.items ∧
      (∀ c ∈ t.items, 0 < c.items.length ∧ c.items.length ≤ size) ∧
      (∀ c ∈ t.items.dropLast, c.items.length = size) ∧
      (∀ c ∈ t.items, c.capacity = c.items.length ∧ c.reallocations = 0) ∧
      t.capacity = s.items.length ⌈/⌉ size ∧ t.reallocations = 0 := by
  refine ⟨s.chunk_zero, fun size h => ?_⟩
  obtain ⟨t, ht, hitems, hcap, hre⟩ := s.chunk_of_pos h
  refine ⟨t, ht, ?_, ?_, ?_, ?_, ?_, hcap, hre⟩
  · simp [hitems, length_piecesOf]
  · simp [hitems, Function.comp_def]
  · rw [hitems, List.forall_mem_map]
    exact length_mem_piecesOf size h s.items
  · rw [hitems, ← List.map_dropLast, List.forall_mem_map]
    exact length_mem_dropLast_piecesOf size h s.items
  · -- every chunk is a copy
    rw [hitems, List.forall_mem_map]
    exact fun _ _ => ⟨rfl, rfl⟩

/-- Seven elements in chunks of three: three chunks that read `0, …, 6` in order, each but the
last full, held in a buffer of three slots never replaced. -/
theorem seven_in_chunks_of_three :
    ∃ t, (ofList (List.range 7)).chunk 3 = .ok t ∧ t.items.length = 3 ∧
      (t.items.map Store.items).flatten = List.range 7 ∧
      (∀ c ∈ t.items.dropLast, c.items.length = 3) ∧ t.capacity = 3 ∧ t.reallocations = 0 := by
  obtain ⟨t, ht, hlen, hflat, -, hfull, -, hcap, hre⟩ :=
    (chunks_tile_store (ofList (List.range 7))).2 3 (by decide)
  exact ⟨t, ht, hlen.trans rfl, hflat, hfull, hcap.trans rfl, hre⟩

end Store

end ArrayFlow
