import Mathlib.Logic.Function.Iterate
import Mathlib.Tactic.Linarith
import Mathlib.Data.Rat.Cast.Order
import ArrayFlow.Store.Edit
import ArrayFlow.Proofs.Store.Room

/-!
# The buffer after single insertions

An element inserted on its own – appended, inserted at an index the store accepts, or appended as
part of a feed that promises nothing in advance – finds room in the buffer or finds it full; a full
buffer is replaced by one of the next size of the growth rule, and the replacement is counted
(`ArrayFlow.Store.GrowsByOne`). A buffer is only ever full when the length has caught up with the
capacity, wherever the element goes, so a run of such insertions climbs the orbit
`cap, grown cap, grown (grown cap), …` one step each time the elements reach the current
capacity (`ArrayFlow.Store.GrownTimes`, carried by `ArrayFlow.Store.GrownTimes.step`).

**The closed form** (`ArrayFlow.Store.capacity_after_insertions`): after `n` single insertions
into a store of `len` elements, `cap` slots and `r` replacements, the capacity is `grown^[k] cap`
and the count `r + k`, where `k` is the least number with `len + n ≤ grown^[k] cap`. Since the
growth rule multiplies by at least three halves, `k` is logarithmic in `len + n`
(`ArrayFlow.Store.pow_le_iterate_grown`).

Capacities are natural numbers here: the growth rule does not saturate at a largest machine word,
which no buffer of words can reach.
-/

namespace ArrayFlow

namespace Store

variable {α : Type}

/-! ### One insertion -/

/-- **The buffer rule of one insertion**: one more element; a full buffer is replaced by one of the
next size of the growth rule and the replacement counted, any other buffer is kept. -/
def GrowsByOne (s t : Store α) : Prop :=
  t.items.length = s.items.length + 1 ∧
    if s.items.length = s.capacity then
      t.capacity = grown s.capacity ∧ t.reallocations = s.reallocations + 1
    else t.capacity = s.capacity ∧ t.reallocations = s.reallocations

/-- Appending one element to `len` elements in `cap` slots. -/
theorem growthFor_one (len cap r : Nat) :
    growthFor len cap r 1 = if len = cap then (grown len, r + 1) else (cap, r) := by
  simp only [growthFor]

theorem growsByOne_append (s : Store α) (x : α) : GrowsByOne s (s.append x) := by
  refine ⟨by simp, ?_⟩
  simp only [append, appendEach, List.length_singleton, growthFor_one]
  split
  · next hfull => exact ⟨by rw [hfull], rfl⟩
  · exact ⟨rfl, rfl⟩

theorem growsByOne_insertAt {s t : Store α} {i : Nat} {x : α} (h : s.insertAt i x = .ok t) :
    GrowsByOne s t := by
  unfold insertAt at h
  split at h
  · cases h
  · split at h
    · cases h
      exact growsByOne_append s x
    · -- an insertion before the end makes room the way an append does
      next hgt hne =>
      cases h
      refine ⟨by simp only [items_makeRoom, List.length_append, List.length_take,
        List.length_cons, List.length_drop]; omega, ?_⟩
      unfold makeRoom
      split
      · next hfull => exact ⟨by simp [reallocate, hfull], rfl⟩
      · exact ⟨rfl, rfl⟩

/-- Appending a list is appending its elements one after the other. -/
theorem appendEach_cons (s : Store α) (x : α) (xs : List α) :
    s.appendEach (x :: xs) = (s.append x).appendEach xs := by
  have hstep : growthFor s.items.length s.capacity s.reallocations (xs.length + 1) =
      growthFor (s.items.length + 1) (s.append x).capacity (s.append x).reallocations
        xs.length := by
    simp only [growthFor, append, appendEach, List.length_singleton, growthFor_one]
    split <;> rfl
  ext
  · simp
  · simp only [appendEach, List.length_cons, hstep, items_append, List.length_append,
      List.length_nil, Nat.zero_add]
  · simp only [appendEach, List.length_cons, hstep, items_append, List.length_append,
      List.length_nil, Nat.zero_add]

theorem appendEach_eq_foldl (s : Store α) (xs : List α) : s.appendEach xs = xs.foldl append s := by
  induction xs generalizing s with
  | nil => ext <;> simp [appendEach, growthFor]
  | cons x xs ih => rw [appendEach_cons, ih, List.foldl_cons]

/-- A feed that promises nothing reserves nothing, and its elements are appended one by one. -/
theorem appendAll_lazy (s : Store α) (xs : List α) :
    s.appendAll (Feed.lazy xs) = xs.foldl append s := by
  rw [appendAll, ensureCapacity_of_le s (by simpa [Feed.lazy] using s.length_le), Feed.items_lazy,
    appendEach_eq_foldl]

/-! ### Runs of insertions -/

/-- **Single insertions in any mix**: `t` is `s` after `n` elements were inserted one at a time,
each appended, inserted at an index the store accepts, or appended as part of a feed that
promises nothing in advance. -/
inductive InsertsOneByOne : Nat → Store α → Store α → Prop
  /-- Nothing inserted. -/
  | rest (s : Store α) : InsertsOneByOne 0 s s
  /-- One element appended. -/
  | append {n : Nat} {s t : Store α} (x : α) :
      InsertsOneByOne n s t → InsertsOneByOne (n + 1) s (t.append x)
  /-- One element inserted at an index the store accepts. -/
  | insertAt {n : Nat} {s t u : Store α} {i : Nat} {x : α} :
      InsertsOneByOne n s t → t.insertAt i x = .ok u → InsertsOneByOne (n + 1) s u
  /-- The elements of a feed that promises nothing, appended. -/
  | appendLazy {n : Nat} {s t : Store α} (xs : List α) :
      InsertsOneByOne n s t → InsertsOneByOne (n + xs.length) s (t.appendAll (Feed.lazy xs))

/-- **The buffer climbs the orbit of the growth rule**: `t` has the buffer of `s` grown `k` times,
each growth counted, and every capacity passed on the way was outgrown by the elements of `t`. -/
def GrownTimes (s t : Store α) (k : Nat) : Prop :=
  t.capacity = grown^[k] s.capacity ∧ t.reallocations = s.reallocations + k ∧
    ∀ j < k, grown^[j] s.capacity < t.items.length

theorem grownTimes_rest (s : Store α) : GrownTimes s s 0 :=
  ⟨rfl, rfl, fun _ hj => absurd hj (Nat.not_lt_zero _)⟩

/-- **The step**: an insertion that finds the buffer full takes it one step further along the
orbit; any other insertion leaves it where it is. -/
theorem GrownTimes.step {s t u : Store α} {k : Nat} (h : GrownTimes s t k)
    (hu : GrowsByOne t u) : ∃ k', GrownTimes s u k' := by
  obtain ⟨hcap, hre, hpast⟩ := h
  obtain ⟨hlen, hbuf⟩ := hu
  split at hbuf
  · next hfull =>
    -- the length has reached the capacity `grown^[k] cap`, which is now passed
    refine ⟨k + 1, ?_, ?_, fun j hj => ?_⟩
    · rw [hbuf.1, hcap, Function.iterate_succ_apply']
    · rw [hbuf.2, hre, Nat.add_assoc]
    · rcases Nat.lt_succ_iff_lt_or_eq.mp hj with hj | rfl
      · have := hpast j hj
        omega
      · omega
  · refine ⟨k, by rw [hbuf.1, hcap], by rw [hbuf.2, hre], fun j hj => ?_⟩
    have := hpast j hj
    omega

/-- Appending elements one by one keeps the buffer on the orbit. -/
theorem GrownTimes.foldl_append {s t : Store α} {k : Nat} (h : GrownTimes s t k) (xs : List α) :
    ∃ k', GrownTimes s (xs.foldl append t) k' := by
  induction xs generalizing t k with
  | nil => exact ⟨k, h⟩
  | cons x xs ih =>
    obtain ⟨k', h'⟩ := h.step (growsByOne_append t x)
    exact ih h'

/-- **The run**: after `n` single insertions the store holds `n` more elements, with its buffer on
the orbit of the growth rule. -/
theorem InsertsOneByOne.grownTimes {n : Nat} {s t : Store α} (h : InsertsOneByOne n s t) :
    t.items.length = s.items.length + n ∧ ∃ k, GrownTimes s t k := by
  induction h with
  | rest s => exact ⟨rfl, 0, grownTimes_rest s⟩
  | append x _ ih =>
    obtain ⟨hlen, k, hk⟩ := ih
    exact ⟨by simp [hlen]; omega, hk.step (growsByOne_append _ x)⟩
  | insertAt _ hins ih =>
    obtain ⟨hlen, k, hk⟩ := ih
    exact ⟨by rw [(growsByOne_insertAt hins).1, hlen]; omega, hk.step (growsByOne_insertAt hins)⟩
  | appendLazy xs _ ih =>
    obtain ⟨hlen, k, hk⟩ := ih
    refine ⟨by simp [hlen]; omega, ?_⟩
    rw [appendAll_lazy]
    exact hk.foldl_append xs

/-! ### The orbit of the growth rule -/

/-- The orbit of the growth rule rises at every step. -/
theorem iterate_grown_lt (c : Nat) {i j : Nat} (h : i < j) : grown^[i] c < grown^[j] c := by
  induction j with
  | zero => omega
  | succ j ih =>
    rw [Function.iterate_succ_apply']
    rcases Nat.lt_succ_iff_lt_or_eq.mp h with h | rfl
    · exact lt_trans (ih h) (lt_grown _)
    · exact lt_grown _

/-- Later points of the orbit are at least as large. -/
theorem iterate_grown_le (c : Nat) {i j : Nat} (h : i ≤ j) : grown^[i] c ≤ grown^[j] c := by
  rcases Nat.lt_or_eq_of_le h with h | rfl
  · exact Nat.le_of_lt (iterate_grown_lt c h)
  · exact Nat.le_refl _

/-- The growth rule multiplies by at least three halves. -/
theorem three_mul_le_two_mul_grown (c : Nat) : 3 * c ≤ 2 * grown c := by
  unfold grown
  omega

/-- **The orbit grows geometrically**: after `m + 1` steps it is at least `(3/2)^m`. -/
theorem pow_le_iterate_grown (c m : Nat) : ((3 : ℚ) / 2) ^ m ≤ grown^[m + 1] c := by
  induction m with
  | zero =>
    have : 1 ≤ grown c := Nat.lt_of_le_of_lt (Nat.zero_le c) (lt_grown c)
    simpa using (Nat.one_le_cast (α := ℚ)).mpr this
  | succ m ih =>
    have hstep : (3 : ℚ) * (grown^[m + 1] c : ℕ) ≤ 2 * (grown (grown^[m + 1] c) : ℕ) := by
      exact_mod_cast three_mul_le_two_mul_grown _
    rw [Function.iterate_succ_apply' grown (m + 1), pow_succ]
    linarith

/-- **Where a run of insertions ends**: after `n` single insertions the capacity is `grown^[k] cap`
and the count `r + k`, for the least `k` with `len + n ≤ grown^[k] cap`. -/
theorem InsertsOneByOne.capacity_eq {n : Nat} {s t : Store α} (h : InsertsOneByOne n s t) :
    ∃ k, s.items.length + n ≤ grown^[k] s.capacity ∧
      (∀ j < k, grown^[j] s.capacity < s.items.length + n) ∧
      t.capacity = grown^[k] s.capacity ∧ t.reallocations = s.reallocations + k := by
  obtain ⟨hlen, k, hcap, hre, hpast⟩ := h.grownTimes
  refine ⟨k, ?_, fun j hj => hlen ▸ hpast j hj, hcap, hre⟩
  rw [← hlen, ← hcap]
  exact t.length_le

/-- The number of growths is logarithmic: `(3/2)^(k - 2)` is below the length reached, once the
buffer has grown twice. -/
theorem pow_lt_of_least {c N k : Nat} (hleast : ∀ j < k, grown^[j] c < N) (hk : 2 ≤ k) :
    ((3 : ℚ) / 2) ^ (k - 2) < N := by
  have hlast : grown^[k - 2 + 1] c < N := hleast (k - 2 + 1) (by omega)
  calc ((3 : ℚ) / 2) ^ (k - 2) ≤ grown^[k - 2 + 1] c := pow_le_iterate_grown c (k - 2)
    _ < N := by exact_mod_cast hlast

/-- The least `k` with `N ≤ grown^[k] c` is `j + 1` when `N` lies above the `j`-th point of the
orbit and not above the next. -/
theorem eq_succ_of_least {c N j k : Nat} (hk : N ≤ grown^[k] c)
    (hleast : ∀ i < k, grown^[i] c < N) (hj : grown^[j] c < N) (hj' : N ≤ grown^[j + 1] c) :
    k = j + 1 := by
  rcases Nat.lt_trichotomy k (j + 1) with hlt | heq | hgt
  · -- `k ≤ j` would put the `k`-th point at or below the `j`-th, which is below `N`
    have hle := iterate_grown_le c (Nat.lt_succ_iff.mp hlt)
    omega
  · exact heq
  · -- the `(j + 1)`-th point would be passed, yet it is not below `N`
    exact absurd (hleast (j + 1) hgt) (Nat.not_lt.mpr hj')

/-- Appending a list to the empty store is inserting its elements one by one. -/
theorem insertsOneByOne_ofAppends (xs : List α) :
    InsertsOneByOne xs.length empty (ofAppends xs) := by
  have h := InsertsOneByOne.appendLazy xs (.rest (empty : Store α))
  rwa [Nat.zero_add, appendAll_lazy, ← appendEach_eq_foldl] at h

/-- `n` appends to the empty store give the capacity `grown^[k] 0` with `k` replacements, for the
least `k` with `n ≤ grown^[k] 0`. -/
theorem ofAppends_capacity (xs : List α) :
    ∃ k, xs.length ≤ grown^[k] 0 ∧ (∀ j < k, grown^[j] 0 < xs.length) ∧
      (ofAppends xs).capacity = grown^[k] 0 ∧ (ofAppends xs).reallocations = k := by
  simpa [empty] using (insertsOneByOne_ofAppends xs).capacity_eq

/-- The capacity after appending to the empty store depends only on the number of elements. -/
theorem capacity_ofAppends (xs : List α) :
    (ofAppends xs).capacity = (growthFor 0 0 0 xs.length).1 := rfl

/-- Ten thousand appends to the empty store reach the capacity `12136` in 22 replacements. -/
theorem ofAppends_ten_thousand {xs : List α} (h : xs.length = 10000) :
    (ofAppends xs).capacity = 12136 ∧ (ofAppends xs).reallocations = 22 := by
  obtain ⟨k, hk, hleast, hcap, hre⟩ := ofAppends_capacity xs
  rw [h] at hk hleast
  -- `10000` lies between the 21st point of the orbit from zero, 8090, and the 22nd, 12136
  have hk22 : k = 22 := eq_succ_of_least hk hleast (j := 21) (by decide) (by decide)
  subst hk22
  exact ⟨hcap.trans (by decide), hre⟩

/-- **Single insertions follow the orbit of the growth rule.** After `n` single-element insertions
in any mix into a store of `len` elements held in `cap` slots and replaced `r` times, the capacity
is `grown^[k] cap` and the count `r + k`, where `k` is the least number with
`len + n ≤ grown^[k] cap`; so `(3/2)^(k - 2) < len + n` when `k ≥ 2`. In particular `n` appends to
the empty store give the capacity `grown^[k] 0` with `k` replacements: capacities `1, 2, 4, 4, 7,
7, 7, 11` after the first eight, and `12136` after ten thousand, with 22 replacements. -/
theorem capacity_after_insertions :
    (∀ {n : Nat} {s t : Store α}, InsertsOneByOne n s t →
      ∃ k, s.items.length + n ≤ grown^[k] s.capacity ∧
        (∀ j < k, grown^[j] s.capacity < s.items.length + n) ∧
        t.capacity = grown^[k] s.capacity ∧ t.reallocations = s.reallocations + k ∧
        (2 ≤ k → ((3 : ℚ) / 2) ^ (k - 2) < s.items.length + n)) ∧
    (∀ xs : List α, ∃ k, xs.length ≤ grown^[k] 0 ∧ (∀ j < k, grown^[j] 0 < xs.length) ∧
      (ofAppends xs).capacity = grown^[k] 0 ∧ (ofAppends xs).reallocations = k) ∧
    (∀ xs : List α, xs.length = 8 →
      (List.range 8).map (fun i => (ofAppends (xs.take (i + 1))).capacity) =
        [1, 2, 4, 4, 7, 7, 7, 11]) ∧
    (∀ xs : List α, xs.length = 10000 →
      (ofAppends xs).capacity = 12136 ∧ (ofAppends xs).reallocations = 22) := by
  refine ⟨fun h => ?_, ofAppends_capacity, fun xs h8 => ?_, fun xs h => ofAppends_ten_thousand h⟩
  · obtain ⟨k, hk, hleast, hcap, hre⟩ := h.capacity_eq
    exact ⟨k, hk, hleast, hcap, hre, fun h2 => by exact_mod_cast pow_lt_of_least hleast h2⟩
  · simp only [capacity_ofAppends, List.length_take, h8]
    decide

/-- Two elements in a full buffer of two, then one more appended and a feed of two that promises
nothing: the buffer grows twice, to `grown (grown 2) = 7`. -/
theorem capacity_after_mixed_insertions :
    let t := ((ofList [1, 2] : Store Nat).append 3).appendAll (Feed.lazy [4, 5])
    InsertsOneByOne 3 (ofList [1, 2]) t ∧ t.capacity = 7 ∧ t.reallocations = 2 := by
  intro t
  have hrun : InsertsOneByOne 3 (ofList [1, 2]) t := .appendLazy [4, 5] (.append 3 (.rest _))
  obtain ⟨k, hk, hleast, hcap, hre, -⟩ := capacity_after_insertions.1 hrun
  have hk2 : k = 2 := eq_succ_of_least hk hleast (j := 1) (by decide) (by decide)
  subst hk2
  exact ⟨hrun, hcap.trans (by decide), hre⟩

end Store

end ArrayFlow
