import Mathlib
import ArrayFlow.Pipeline.Basic

/-!
# How a pipeline is cut into batches

Cutting a source of `L` elements into batches of a positive size `B`
(`ArrayFlow.Pipeline.split`) gives `⌈L / B⌉` batches, the `k`-th covering the indices
`[k * B, min ((k + 1) * B) L)`. None of them is empty, and read one after the other they cover
`[0, L)` exactly once; the whole source is the one batch `[0, L)`
(`ArrayFlow.Pipeline.split_covers`).

Each fact is first proved of the batches from an arbitrary starting index on
(`ArrayFlow.Pipeline.splitFrom`), by induction along the cutting.
-/

namespace ArrayFlow

namespace Pipeline

variable {m : Type → Type} {α : Type}

/-! ### From a starting index on -/

/-- **The bounds of the batches** from index `start` on: `⌈(L - start) / B⌉` of them, the
`k`-th covering `[start + k * B, min (start + (k + 1) * B) L)`. -/
theorem splitFrom_bounds (p : Pipeline m α) (size : Nat) (h : 0 < size) (start : Nat) :
    (p.splitFrom size h start).map (fun b => (b.start, b.stop)) =
      (List.range ((p.source.length - start + size - 1) / size)).map
        (fun k => (start + k * size, min (start + (k + 1) * size) p.source.length)) := by
  fun_induction splitFrom p size h start with
  | case1 start hs ih =>
    rw [List.map_cons, ih]
    dsimp only
    by_cases hb : start + size ≤ p.source.length
    · -- a full batch, and more batches from `start + size` on
      have hmin : min (start + size) p.source.length = start + size := by omega
      have hn : (p.source.length - start + size - 1) / size =
          (p.source.length - (start + size) + size - 1) / size + 1 := by
        rw [← Nat.add_div_right _ h]; congr 1; omega
      simp only [hmin]
      rw [hn, List.range_succ_eq_map]
      simp only [List.map_cons, List.map_map]
      congr 1
      · simp [hmin]
      · apply List.map_congr_left
        intro k _
        simp only [Function.comp, Nat.succ_eq_add_one, Prod.mk.injEq]
        constructor <;> ring_nf
    · -- the last batch, shorter than the size or just as long
      have hmin : min (start + size) p.source.length = p.source.length := by omega
      have hn : (p.source.length - start + size - 1) / size = 1 := by
        rw [Nat.div_eq_iff h]; omega
      have hn' : (p.source.length - p.source.length + size - 1) / size = 0 := by
        apply Nat.div_eq_of_lt; omega
      simp only [hmin]
      rw [hn', hn]
      simp [hmin]
  | case2 start hs =>
    have : (p.source.length - start + size - 1) / size = 0 := by
      apply Nat.div_eq_of_lt; omega
    simp [this]

/-- No batch from a starting index on is empty. -/
theorem start_lt_stop_of_mem_splitFrom (p : Pipeline m α) (size : Nat) (h : 0 < size)
    (start : Nat) : ∀ b ∈ p.splitFrom size h start, b.start < b.stop := by
  fun_induction splitFrom p size h start with
  | case1 start hs ih =>
    intro b hb
    rcases List.mem_cons.mp hb with rfl | hb
    · dsimp only; omega
    · exact ih b hb
  | case2 start hs => simp

/-- Read one after the other, the batches from `start` on cover `[start, L)`. -/
theorem flatMap_splitFrom (p : Pipeline m α) (size : Nat) (h : 0 < size) (start : Nat) :
    (p.splitFrom size h start).flatMap (fun b => List.range' b.start (b.stop - b.start)) =
      List.range' start (p.source.length - start) := by
  fun_induction splitFrom p size h start with
  | case1 start hs ih =>
    rw [List.flatMap_cons, ih]
    dsimp only
    obtain ⟨d, hd⟩ : ∃ d, min (start + size) p.source.length = start + d :=
      ⟨_, (Nat.add_sub_cancel' (by omega)).symm⟩
    rw [hd, Nat.add_sub_cancel_left, List.range'_append_1]
    congr 1
    omega
  | case2 start hs =>
    have : p.source.length - start = 0 := by omega
    simp [this]

/-! ### What each batch reads -/

/-- Every batch from a starting index on reads the pipeline's source through its chain. -/
theorem chain_of_mem_splitFrom (p : Pipeline m α) (size : Nat) (h : 0 < size) (start : Nat) :
    ∀ b ∈ p.splitFrom size h start, b.source = p.source ∧ b.chain = p.chain := by
  fun_induction splitFrom p size h start with
  | case1 start hs ih =>
    intro b hb
    rcases List.mem_cons.mp hb with rfl | hb
    · exact ⟨rfl, rfl⟩
    · exact ih b hb
  | case2 start hs => simp

/-- The stretch of a list from `i` up to `e`, followed by what comes after `e`, is everything
from `i` on. -/
theorem drop_take_append_drop (l : List α) (i e : Nat) (h : i ≤ e) :
    (l.take e).drop i ++ l.drop e = l.drop i := by
  obtain ⟨d, rfl⟩ := Nat.exists_eq_add_of_le h
  rw [List.drop_take, Nat.add_sub_cancel_left, ← List.drop_drop, List.take_append_drop]

/-- **Read one after the other**, the batches from `start` on read the source from `start`
on. -/
theorem flatMap_inputs_splitFrom (p : Pipeline m α) (size : Nat) (h : 0 < size) (start : Nat) :
    (p.splitFrom size h start).flatMap Batch.inputs = p.source.drop start := by
  fun_induction splitFrom p size h start with
  | case1 start hs ih =>
    rw [List.flatMap_cons, ih]
    exact drop_take_append_drop p.source start (min (start + size) p.source.length) (by omega)
  | case2 start hs =>
    rw [List.drop_eq_nil_of_le (by omega)]
    rfl

/-- The whole source, as one batch, reads the whole source. -/
theorem inputs_whole (p : Pipeline m α) : p.whole.inputs = p.source := by
  simp [whole, Batch.inputs]

/-! ### The batches of a pipeline -/

/-- A source has no batches exactly when it is empty. -/
@[simp] theorem split_eq_nil_iff (p : Pipeline m α) (size : Nat) (h : 0 < size) :
    p.split size h = [] ↔ p.source = [] := by
  rw [split, splitFrom]
  by_cases hs : 0 < p.source.length
  · simp [hs, List.ne_nil_of_length_pos hs]
  · simp [List.eq_nil_of_length_eq_zero (Nat.eq_zero_of_not_pos hs)]

/-- **Cutting a source into batches**: there are `⌈L / B⌉` batches, the `k`-th covering
`[k * B, min ((k + 1) * B) L)`; none is empty; read one after the other they cover `[0, L)`;
and the whole source is the batch `[0, L)`. -/
theorem split_covers (p : Pipeline m α) (size : Nat) (h : 0 < size) :
    (p.split size h).map (fun b => (b.start, b.stop)) =
        (List.range ((p.source.length + size - 1) / size)).map
          (fun k => (k * size, min ((k + 1) * size) p.source.length)) ∧
      (∀ b ∈ p.split size h, b.start < b.stop) ∧
      (p.split size h).flatMap (fun b => List.range' b.start (b.stop - b.start)) =
        List.range p.source.length ∧
      p.whole.start = 0 ∧ p.whole.stop = p.source.length := by
  refine ⟨?_, start_lt_stop_of_mem_splitFrom p size h 0, ?_, rfl, rfl⟩
  · simpa [split] using splitFrom_bounds p size h 0
  · simpa [split, List.range_eq_range'] using flatMap_splitFrom p size h 0

/-- Seven elements cut into batches of three: `[0, 3)`, `[3, 6)` and `[6, 7)`. -/
theorem split_covers_seven :
    0 < 3 ∧
      ((ofList [1, 2, 3, 4, 5, 6, 7] : Pipeline Id Nat).split 3 (by decide)).map
            (fun b => (b.start, b.stop)) =
          (List.range (((ofList [1, 2, 3, 4, 5, 6, 7] : Pipeline Id Nat).source.length + 3 - 1)
            / 3)).map
            (fun k => (k * 3, min ((k + 1) * 3)
              (ofList [1, 2, 3, 4, 5, 6, 7] : Pipeline Id Nat).source.length)) ∧
        (∀ b ∈ (ofList [1, 2, 3, 4, 5, 6, 7] : Pipeline Id Nat).split 3 (by decide),
          b.start < b.stop) ∧
        ((ofList [1, 2, 3, 4, 5, 6, 7] : Pipeline Id Nat).split 3 (by decide)).flatMap
            (fun b => List.range' b.start (b.stop - b.start)) =
          List.range (ofList [1, 2, 3, 4, 5, 6, 7] : Pipeline Id Nat).source.length ∧
        (ofList [1, 2, 3, 4, 5, 6, 7] : Pipeline Id Nat).whole.start = 0 ∧
        (ofList [1, 2, 3, 4, 5, 6, 7] : Pipeline Id Nat).whole.stop =
          (ofList [1, 2, 3, 4, 5, 6, 7] : Pipeline Id Nat).source.length :=
  ⟨by decide, split_covers (ofList [1, 2, 3, 4, 5, 6, 7] : Pipeline Id Nat) 3 (by decide)⟩

end Pipeline

end ArrayFlow
