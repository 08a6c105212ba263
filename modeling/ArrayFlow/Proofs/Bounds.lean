import Mathlib.Tactic.Choose
import ArrayFlow.Store.Query
import ArrayFlow.Store.Lookup
import ArrayFlow.Proofs.Pipeline.Split

/-!
# Every index in bounds

The operations of a store and of a batch are written here over lists, with no index in sight; an
implementation walks the same elements by index, `items[i]` for `i` in a range, and an index past
the end is an error there. This module shows that every index such a walk reads is in bounds, and
that reading the indices gives exactly the elements the operation works on:

* a walk with indices visits `0, 1, …, len - 1`, and each index reads the element it is paired
  with (`ArrayFlow.Store.indexed_reads`);
* a stretch read once its checks have passed, and a section with its start and end computed from
  the length, lie within the elements (`ArrayFlow.Store.mapM_getElem?_of_slice?`,
  `ArrayFlow.Store.section?_reads`); the products and sums that give a section's bounds never
  exceed the length, so they fit wherever the length does;
* a search answers an index below the length, and the extremum searches answer an element,
  whatever effects the predicate or key has (`ArrayFlow.Store.firstIndexM_lt`,
  `ArrayFlow.Store.extremumByM_mem`), stated of every run of the search;
* compaction that may be refused asks about at most one element per index
  (`ArrayFlow.Store.marksUntil_length_le`);
* a buffer is only ever replaced by one that holds the elements;
* every batch reads its source between bounds that lie within it (`ArrayFlow.Batch.reads`), and
  the batches a pipeline cuts read the pipeline's own source.

`ArrayFlow.indices_in_bounds` puts these together.
-/

namespace ArrayFlow

/-- **Reading a run of indices**: the `n` indices from `a` on lie within a list that reaches
`a + n`, and reading them gives the elements there. -/
theorem mapM_getElem?_range' {α : Type} (xs : List α) (a n : Nat) (h : a + n ≤ xs.length) :
    (List.range' a n).mapM (fun i => xs[i]?) = some ((xs.drop a).take n) := by
  induction n generalizing a with
  | zero => simp
  | succ n ih =>
    have ha : a < xs.length := by omega
    rw [List.range'_succ, List.mapM_cons, ih (a + 1) (by omega), List.getElem?_eq_getElem ha,
      List.drop_eq_getElem_cons ha]
    rfl

/-- Reading the indices `[a, c)` of a list that reaches `c` gives its stretch `[a, c)`. -/
theorem mapM_getElem?_stretch {α : Type} (xs : List α) {a c : Nat} (hac : a ≤ c)
    (hc : c ≤ xs.length) :
    (List.range' a (c - a)).mapM (fun i => xs[i]?) = some ((xs.take c).drop a) := by
  rw [mapM_getElem?_range' xs a (c - a) (by omega), List.drop_take]

namespace Store

variable {α : Type}

/-! ### Walks over a store -/

/-- **A walk with indices** visits the indices `0, 1, …, len - 1` in order, and each index
reads the element it is paired with. -/
theorem indexed_reads (s : Store α) :
    s.indexed.map Prod.fst = List.range s.items.length ∧
      ∀ q ∈ s.indexed, s.items[q.1]? = some q.2 := by
  constructor
  · simp [indexed, Function.comp_def, List.range_eq_range']
  · intro q hq
    simp only [indexed, List.mem_map] at hq
    obtain ⟨p, hp, rfl⟩ := hq
    exact List.mem_zipIdx_iff_getElem?.mp hp

/-- **A stretch, once its checks pass**, lies within the elements and is read from them. -/
theorem mapM_getElem?_of_slice? {s : Store α} {lo hi : Nat} {ys : List α}
    (h : s.slice? lo hi = .ok ys) :
    lo ≤ hi ∧ hi ≤ s.items.length ∧
      (List.range' lo (hi - lo)).mapM (fun i => s.items[i]?) = some ys := by
  unfold slice? at h
  split at h
  · cases h
  · split at h
    · cases h
    · next hlo hhi =>
      cases h
      exact ⟨by omega, by omega, mapM_getElem?_stretch s.items (by omega) (by omega)⟩

/-- The start of section `k` of `n` and, for every section but the last, its end stay within the
length: `⌊len / n⌋ * k ≤ len`, and `⌊len / n⌋ * k + ⌊len / n⌋ ≤ len` when `k + 1 < n`. -/
theorem section_bounds (len : Nat) {k n : Nat} (hk : k < n) :
    len / n * k ≤ len ∧ (k + 1 < n → len / n * k + len / n ≤ len) := by
  -- `k + 1` sections of `⌊len / n⌋` elements fit in the `n` that fit in `len`
  have hfit : len / n * (k + 1) ≤ len :=
    Nat.le_trans (Nat.mul_le_mul_left _ hk) (Nat.div_mul_le_self len n)
  rw [Nat.mul_succ] at hfit
  exact ⟨Nat.le_trans (Nat.le_add_right _ _) hfit, fun _ => hfit⟩

/-- **Every section a store accepts to cut is answered**, its bounds computed from the length stay
within it, and it is read from the elements from its start on. -/
theorem section?_reads (s : Store α) {k n : Nat} (hn : 0 < n) (hk : k < n) :
    ∃ ys, s.section? k n = .ok ys ∧
      s.items.length / n * k ≤ s.items.length ∧
      (k + 1 < n → s.items.length / n * k + s.items.length / n ≤ s.items.length) ∧
      (List.range' (s.items.length / n * k) ys.length).mapM (fun i => s.items[i]?) = some ys := by
  obtain ⟨hlo, hhi⟩ := section_bounds s.items.length hk
  -- the end is the length for the last section and the start plus the size for the others
  let stop := if k = n - 1 then s.items.length else s.items.length / n * k + s.items.length / n
  have hend : s.items.length / n * k ≤ stop ∧ stop ≤ s.items.length := by
    simp only [stop]
    split
    · exact ⟨hlo, Nat.le_refl _⟩
    · exact ⟨Nat.le_add_right _ _, hhi (by omega)⟩
  refine ⟨(s.items.take stop).drop (s.items.length / n * k), ?_, hlo, hhi, ?_⟩
  · simp [section?, stop, Nat.pos_iff_ne_zero.mp hn, Nat.not_le.mpr hk]
  rw [← mapM_getElem?_stretch s.items hend.1 hend.2]
  simp only [List.length_drop, List.length_take, Nat.min_eq_left hend.2]

/-! ### Searches whose functions have effects

The predicate or key of a search may have effects in any lawful monad, so what a search answers
is stated of every run at once: the search is the image, under `Subtype.val`, of a computation
whose answers carry the bound. -/

variable {m : Type → Type} [Monad m] [LawfulMonad m]

/-- **A search answers an index below the length**, whatever the predicate does: it is a search
whose answers carry that bound, with the bound forgotten. -/
theorem firstIndexM_lt (p : α → m Bool) (xs : List α) :
    ∃ q : m {o : Option Nat // ∀ i ∈ o, i < xs.length}, Subtype.val <$> q = firstIndexM p xs := by
  induction xs with
  | nil => exact ⟨pure ⟨none, by simp⟩, by simp [firstIndexM]⟩
  | cons x xs ih =>
    obtain ⟨q, hq⟩ := ih
    -- the index found in the rest moves up by one
    let up (o : {o : Option Nat // ∀ i ∈ o, i < xs.length}) :
        {o : Option Nat // ∀ i ∈ o, i < (x :: xs).length} :=
      ⟨o.1.map (· + 1), fun i hi => by
        rw [Option.mem_def, Option.map_eq_some_iff] at hi
        obtain ⟨j, hj, rfl⟩ := hi
        simpa using o.2 j hj⟩
    refine ⟨p x >>= fun b => if b then pure ⟨some 0, by simp⟩ else up <$> q, ?_⟩
    simp only [firstIndexM, map_bind, ← hq]
    congr 1
    funext b
    cases b <;> simp [up]

/-- **An extremum search answers one of the elements**, whatever the key does. -/
theorem extremumByM_mem {κ : Type} (s : Store α) (key : α → m κ) (better : κ → κ → Bool) :
    ∃ q : m {o : Option α // ∀ x ∈ o, x ∈ s.items},
      Subtype.val <$> q = s.extremumByM key better := by
  let Holds (best : Option (κ × α)) : Prop := ∀ q ∈ best, q.2 ∈ s.items
  -- the best so far is always one of the elements
  have hstep : ∀ best, Holds best → ∀ x ∈ s.items, ∀ k, Holds (keepBetter better best k x) := by
    intro best hbest x hx k
    unfold keepBetter
    split
    · split
      · simpa [Holds] using hx
      · exact hbest
    · simpa [Holds] using hx
  have hfold : ∀ (l : List α), (∀ x ∈ l, x ∈ s.items) → ∀ best, Holds best →
      ∃ q : m {b // Holds b}, Subtype.val <$> q =
        l.foldlM (fun best x => do pure (keepBetter better best (← key x) x)) best := by
    intro l
    induction l with
    | nil => exact fun _ best hbest => ⟨pure ⟨best, hbest⟩, by simp⟩
    | cons x l ih =>
      intro hl best hbest
      have hrest := fun b hb => ih (fun y hy => hl y (List.mem_cons_of_mem x hy)) b hb
      choose q hq using hrest
      refine ⟨key x >>= fun k => q _ (hstep best hbest x (hl x List.mem_cons_self) k), ?_⟩
      simp [map_bind, hq]
  obtain ⟨q, hq⟩ := hfold s.items (fun _ h => h) none (by simp [Holds])
  refine ⟨(fun b => ⟨b.1.map Prod.snd, fun x hx => ?_⟩) <$> q, ?_⟩
  · rw [Option.mem_def, Option.map_eq_some_iff] at hx
    obtain ⟨r, hr, rfl⟩ := hx
    exact b.2 r hr
  · rw [extremumByM, ← hq, bind_pure_comp, Functor.map_map, Functor.map_map]

/-- **Compaction that may be refused asks about one element per index at most**: the answers
given, and the refusal if there is one, number no more than the elements. -/
theorem marksUntil_length_le {ε : Type} (p : α → m (Except ε Bool)) (xs : List α) :
    ∃ q : m {r : List Bool × Option ε // r.1.length + (if r.2.isSome then 1 else 0) ≤ xs.length},
      Subtype.val <$> q = marksUntil p xs := by
  induction xs with
  | nil => exact ⟨pure ⟨([], none), by simp⟩, by simp [marksUntil]⟩
  | cons x xs ih =>
    obtain ⟨q, hq⟩ := ih
    -- an answer adds one to both sides, a refusal stops at one
    let answer (b : Bool) (r : {r : List Bool × Option ε //
        r.1.length + (if r.2.isSome then 1 else 0) ≤ xs.length}) :
        {r : List Bool × Option ε //
          r.1.length + (if r.2.isSome then 1 else 0) ≤ (x :: xs).length} :=
      ⟨(b :: r.1.1, r.1.2), by have := r.2; simp only [List.length_cons]; omega⟩
    refine ⟨p x >>= fun v =>
      v.casesOn (fun e => pure ⟨([], some e), by simp⟩) (fun b => answer b <$> q), ?_⟩
    simp only [marksUntil, map_bind, ← hq]
    congr 1
    funext v
    cases v <;> simp [answer]

end Store

/-- **Every batch reads its source within bounds**: the indices `[start, stop)` lie within the
source, and reading them gives the batch's inputs. -/
theorem Batch.reads {m : Type → Type} {α : Type} (b : Batch m α) :
    (List.range' b.start (b.stop - b.start)).mapM (fun i => b.source[i]?) = some b.inputs :=
  mapM_getElem?_stretch b.source b.start_le b.stop_le

/-- **No index out of bounds.** On every store – whose elements always fit its buffer – a walk
with indices, a stretch that passed its checks and every section of an accepted count read
only indices below the length, and the bounds of a section never exceed the length; a search
answers an index below the length and an extremum search one of the elements, whatever effects
their functions have; compaction that may be refused asks about one element per index at most;
the buffers the growth rule asks for hold the elements. Every batch a pipeline cuts, or the one
batch of its whole source, reads the pipeline's own source between bounds that lie within it, and
every batch, however derived, reads its inputs from indices within its source. -/
theorem indices_in_bounds {α : Type} :
    (∀ s : Store α, s.indexed.map Prod.fst = List.range s.items.length ∧
      ∀ q ∈ s.indexed, s.items[q.1]? = some q.2) ∧
    (∀ (s : Store α) (lo hi : Nat) (ys : List α), s.slice? lo hi = .ok ys →
      lo ≤ hi ∧ hi ≤ s.items.length ∧
        (List.range' lo (hi - lo)).mapM (fun i => s.items[i]?) = some ys) ∧
    (∀ (s : Store α) (k n : Nat), 0 < n → k < n →
      ∃ ys, s.section? k n = .ok ys ∧ s.items.length / n * k ≤ s.items.length ∧
        (k + 1 < n → s.items.length / n * k + s.items.length / n ≤ s.items.length) ∧
        (List.range' (s.items.length / n * k) ys.length).mapM (fun i => s.items[i]?) = some ys) ∧
    (∀ {m : Type → Type} [Monad m] [LawfulMonad m] (s : Store α) (p : α → m Bool),
      ∃ q : m {o : Option Nat // ∀ i ∈ o, i < s.items.length},
        Subtype.val <$> q = s.detectIndexM p) ∧
    (∀ {m : Type → Type} [Monad m] [LawfulMonad m] {κ : Type} [Ord κ] (s : Store α)
      (key : α → m κ),
      (∃ q : m {o : Option α // ∀ x ∈ o, x ∈ s.items}, Subtype.val <$> q = s.minByKeyM key) ∧
        ∃ q : m {o : Option α // ∀ x ∈ o, x ∈ s.items}, Subtype.val <$> q = s.maxByKeyM key) ∧
    (∀ {m : Type → Type} [Monad m] [LawfulMonad m] {ε : Type} (s : Store α)
      (p : α → m (Except ε Bool)),
      ∃ q : m {r : List Bool × Option ε //
          r.1.length + (if r.2.isSome then 1 else 0) ≤ s.items.length},
        Subtype.val <$> q = Store.marksUntil p s.items) ∧
    (∀ (s : Store α) (n : Nat),
      s.items.length ≤ Store.grown s.items.length ∧
        s.items.length ≤ max (Store.grown s.capacity) n) ∧
    (∀ {m : Type → Type} (p : Pipeline m α) (size : Nat) (h : 0 < size),
      ∀ b ∈ p.whole :: p.split size h,
        b.source = p.source ∧ b.start ≤ b.stop ∧ b.stop ≤ p.source.length) ∧
    (∀ {m : Type → Type} (b : Batch m α),
      (List.range' b.start (b.stop - b.start)).mapM (fun i => b.source[i]?) = some b.inputs) := by
  refine ⟨Store.indexed_reads, fun s lo hi ys h => Store.mapM_getElem?_of_slice? h,
    fun s k n hn hk => s.section?_reads hn hk, fun s p => Store.firstIndexM_lt p s.items,
    fun s key => ⟨s.extremumByM_mem key _, s.extremumByM_mem key _⟩,
    fun s p => Store.marksUntil_length_le p s.items, fun s n => ?_, fun p size h b hb => ?_,
    Batch.reads⟩
  · -- the buffers asked for: the next size after a full one, or after the capacity
    have hcap := s.length_le
    have hlen := Store.lt_grown s.items.length
    have hgrow := Store.lt_grown s.capacity
    exact ⟨by omega, by omega⟩
  · rcases List.mem_cons.mp hb with rfl | hb
    · exact ⟨rfl, Nat.zero_le _, Nat.le_refl _⟩
    · obtain ⟨hsource, -⟩ := p.chain_of_mem_splitFrom size h 0 b hb
      exact ⟨hsource, b.start_le, hsource ▸ b.stop_le⟩

/-- Section 2 of 3 of seven elements is cut, from index 2 on, within the elements. -/
theorem third_section_of_seven_reads :
    ∃ ys, (Store.ofList [1, 2, 3, 4, 5, 6, 7] : Store Nat).section? 2 3 = .ok ys ∧
      7 / 3 * 2 ≤ 7 ∧ (2 + 1 < 3 → 7 / 3 * 2 + 7 / 3 ≤ 7) ∧
      (List.range' (7 / 3 * 2) ys.length).mapM
        (fun i => ([1, 2, 3, 4, 5, 6, 7] : List Nat)[i]?) = some ys :=
  indices_in_bounds.2.2.1 (Store.ofList [1, 2, 3, 4, 5, 6, 7]) 2 3 (by decide) (by decide)

end ArrayFlow
