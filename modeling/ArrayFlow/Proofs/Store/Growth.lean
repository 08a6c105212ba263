import ArrayFlow.Store.Edit

/-!
# How a buffer changes

A store changes its buffer in two ways only, and counts each change once:

* it **grows**: a buffer of `c` slots asked for `need > c` slots is replaced by one of the larger
  of `need` and the next size of the growth rule (`ArrayFlow.Store.Grows`, a chain of such
  replacements);
* it **releases room**: a buffer with slots to spare is replaced by one of exactly the live
  elements (`ArrayFlow.Store.Released`).

Every operation that adds elements or reserves room grows the buffer (`growsTo_appendAll`,
`growsTo_insertAt`, `growsTo_insertRange`, `growsTo_ensureCapacity`, …); the operations that
rearrange or drop elements keep it; trimming releases room (`released_trim`,
`released_trimIf`). Along a chain of growth the capacity never drops and the count moves exactly
when the capacity does (`ArrayFlow.Store.Grows.count_eq_iff`), so the count is the number of
changes of capacity.
-/

namespace ArrayFlow

namespace Store

/-! ### Chains of growth -/

/-- **A chain of growth** from a buffer of `c` slots replaced `r` times to one of `c'` slots
replaced `r'` times: each replacement is asked for more slots than there are, `need > c`, gets
the larger of `need` and the next size of the growth rule, and is counted once. -/
inductive Grows : Nat → Nat → Nat → Nat → Prop
  /-- The buffer is kept. -/
  | rest (c r : Nat) : Grows c r c r
  /-- The buffer is replaced, then the chain goes on from the new one. -/
  | realloc {c r c' r' : Nat} (need : Nat) (h : c < need) :
      Grows (max (grown c) need) (r + 1) c' r' → Grows c r c' r'

namespace Grows

theorem trans {c r c' r' c'' r'' : Nat} (h : Grows c r c' r') (h' : Grows c' r' c'' r'') :
    Grows c r c'' r'' := by
  induction h with
  | rest => exact h'
  | realloc need hneed _ ih => exact realloc need hneed (ih h')

/-- A full buffer replaced by the growth rule: asked for one slot more than it has. -/
theorem full {c r c' r' : Nat} (h : Grows (grown c) (r + 1) c' r') : Grows c r c' r' := by
  refine realloc (c + 1) (Nat.lt_succ_self c) ?_
  rwa [Nat.max_eq_left (lt_grown c)]

/-- Along a chain of growth neither the capacity nor the count goes down. -/
theorem le {c r c' r' : Nat} (h : Grows c r c' r') : c ≤ c' ∧ r ≤ r' := by
  induction h with
  | rest => exact ⟨Nat.le_refl _, Nat.le_refl _⟩
  | realloc need hneed _ ih =>
    have : c < max (grown c) need := by have := lt_grown c; omega
    omega

/-- **The count moves exactly when the capacity does**: every replacement changes the
capacity and is counted. -/
theorem count_eq_iff {c r c' r' : Nat} (h : Grows c r c' r') : r' = r ↔ c' = c := by
  cases h with
  | rest => simp
  | realloc need hneed h =>
    have hle := h.le
    have : c < max (grown c) need := by have := lt_grown c; omega
    omega

end Grows

/-- **Appending one by one grows the buffer**: each element that finds it full replaces it by
the growth rule. -/
theorem grows_growthFor (len cap r n : Nat) (h : len ≤ cap) :
    Grows cap r (growthFor len cap r n).1 (growthFor len cap r n).2 := by
  induction n generalizing len cap r with
  | zero => exact .rest cap r
  | succ n ih =>
    unfold growthFor
    split
    · next hfull =>
      subst hfull
      exact .full (ih (len + 1) (grown len) (r + 1) (lt_grown len))
    · exact ih (len + 1) cap r (by omega)

/-! ### Growth of a store -/

variable {α : Type}

/-- The buffer of `t` is the one of `s`, or grew from it. -/
def GrowsTo (s t : Store α) : Prop := Grows s.capacity s.reallocations t.capacity t.reallocations

theorem GrowsTo.refl (s : Store α) : GrowsTo s s := .rest _ _

theorem GrowsTo.trans {s t u : Store α} (h : GrowsTo s t) (h' : GrowsTo t u) : GrowsTo s u :=
  Grows.trans h h'

/-- A store with the buffer of `s` kept it. -/
theorem growsTo_of_buffer {s t : Store α} (hc : t.capacity = s.capacity)
    (hr : t.reallocations = s.reallocations) : GrowsTo s t := by
  unfold GrowsTo
  rw [hc, hr]
  exact .rest _ _

theorem growsTo_appendEach (s : Store α) (xs : List α) : GrowsTo s (s.appendEach xs) :=
  grows_growthFor _ _ _ _ s.length_le

theorem growsTo_append (s : Store α) (x : α) : GrowsTo s (s.append x) :=
  growsTo_appendEach s [x]

theorem growsTo_ensureCapacity (s : Store α) (n : Nat) : GrowsTo s (s.ensureCapacity n) := by
  unfold ensureCapacity
  split
  · next hmore => exact .realloc n hmore (.rest _ _)
  · exact .rest _ _

/-- Reserving room for a feed, then appending it, grows the buffer. -/
theorem growsTo_appendAll (s : Store α) (f : Feed α) : GrowsTo s (s.appendAll f) :=
  (growsTo_ensureCapacity s _).trans (growsTo_appendEach _ _)

theorem growsTo_makeRoom (s : Store α) : GrowsTo s s.makeRoom := by
  unfold makeRoom
  split
  · next hfull =>
    show Grows s.capacity s.reallocations (grown s.items.length) (s.reallocations + 1)
    rw [hfull]
    exact .full (.rest _ _)
  · exact .rest _ _

theorem growsTo_insertAt {s t : Store α} {i : Nat} {x : α} (h : s.insertAt i x = .ok t) :
    GrowsTo s t := by
  unfold insertAt at h
  split at h
  · cases h
  · split at h
    · cases h
      exact growsTo_append s x
    · cases h
      exact growsTo_makeRoom s

theorem growsTo_insertRange {s t : Store α} {i : Nat} {xs : List α}
    (h : s.insertRange i xs = .ok t) : GrowsTo s t := by
  unfold insertRange at h
  split at h
  · cases h
  · split at h
    · cases h
      exact .rest _ _
    · cases h
      exact growsTo_ensureCapacity s _

theorem growsTo_set {s t : Store α} {i : Nat} {x old : α} (h : s.set i x = .ok (old, t)) :
    GrowsTo s t := by
  unfold set at h
  split at h
  · cases h
    exact growsTo_of_buffer rfl rfl
  · cases h

theorem growsTo_removeAt {s t : Store α} {i : Nat} {x : α} (h : s.removeAt i = .ok (x, t)) :
    GrowsTo s t := by
  unfold removeAt at h
  split at h
  · cases h
    exact growsTo_of_buffer rfl rfl
  · cases h

theorem growsTo_arrange (s : Store α) (xs : List α) : GrowsTo s (s.arrange xs) := by
  unfold arrange
  split
  · exact growsTo_of_buffer rfl rfl
  · exact .rest _ _

/-! ### Releasing room -/

/-- **A release of room**: the buffer is kept, or it had slots to spare and is replaced by one
of exactly the live elements, the replacement counted once. -/
def Released (s t : Store α) : Prop :=
  (t.capacity = s.capacity ∧ t.reallocations = s.reallocations) ∨
    (t.items.length < s.capacity ∧ t.capacity = t.items.length ∧
      t.reallocations = s.reallocations + 1)

theorem released_trim (s : Store α) : Released s s.trim := by
  unfold trim
  split
  · next hspare => exact .inr ⟨hspare, rfl, rfl⟩
  · exact .inl ⟨rfl, rfl⟩

theorem released_trimIf {s t : Store α} {th : Float} {b : Bool}
    (h : s.trimIf th = .ok (b, t)) : Released s t := by
  unfold trimIf at h
  split at h
  · split at h
    · cases h
      exact .inl ⟨rfl, rfl⟩
    · split at h
      · cases h
        exact released_trim s
      · cases h
        exact .inl ⟨rfl, rfl⟩
  · cases h

end Store

end ArrayFlow
