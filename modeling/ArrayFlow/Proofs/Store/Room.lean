import ArrayFlow.Store.Basic

/-!
# Appending into room that is there

A store replaces its buffer only when an element finds it full. Elements appended into room
that is already reserved leave the buffer as it is:

* `ArrayFlow.Store.growthFor_of_le` – one by one, `n` elements appended to `len` elements in
  `cap ≥ len + n` slots replace no buffer;
* `ArrayFlow.Store.appendAll_exact_of_le` – a feed that promises its whole length and fits
  reserves nothing more and replaces no buffer.

Two stores are the same when their elements, capacities and counts are
(`ArrayFlow.Store.ext`), so these facts are stated as equalities of stores.
-/

namespace ArrayFlow

namespace Store

variable {α : Type}

/-- Two stores with the same elements, capacity and count are the same store. -/
@[ext] theorem ext {s t : Store α} (hi : s.items = t.items) (hc : s.capacity = t.capacity)
    (hr : s.reallocations = t.reallocations) : s = t := by
  cases s
  cases t
  simp only at hi hc hr
  subst hi hc hr
  rfl

/-- **No growth into room that is there**: appending `n` elements one by one to `len`
elements held in `cap ≥ len + n` slots never finds the buffer full. -/
theorem growthFor_of_le {len cap r n : Nat} (h : len + n ≤ cap) :
    growthFor len cap r n = (cap, r) := by
  induction n generalizing len with
  | zero => rfl
  | succ n ih => rw [growthFor, if_neg (by omega), ih (by omega)]

/-- Appending elements that fit keeps the buffer. -/
theorem appendEach_of_le (s : Store α) (xs : List α)
    (h : s.items.length + xs.length ≤ s.capacity) :
    s.appendEach xs =
      ⟨s.items ++ xs, s.capacity, s.reallocations, by simpa using h⟩ := by
  ext <;> simp [appendEach, growthFor_of_le h]

/-- Reserving room that is there keeps the store. -/
theorem ensureCapacity_of_le (s : Store α) {n : Nat} (h : n ≤ s.capacity) :
    s.ensureCapacity n = s := by
  simp [ensureCapacity, Nat.not_lt.mpr h]

/-- **A feed that promises its length and fits** is appended into the buffer as it is. -/
theorem appendAll_exact_of_le (s : Store α) (xs : List α)
    (h : s.items.length + xs.length ≤ s.capacity) :
    s.appendAll (.exact xs) =
      ⟨s.items ++ xs, s.capacity, s.reallocations, by simpa using h⟩ := by
  show (s.ensureCapacity (s.items.length + xs.length)).appendEach xs = _
  rw [ensureCapacity_of_le s h]
  exact appendEach_of_le s xs h

end Store

end ArrayFlow
