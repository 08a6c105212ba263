import ArrayFlow.Store.Edit
import ArrayFlow.Store.Lookup

/-!
# Inserting and removing at a position

`ArrayFlow.Store.insertAt` puts one element before index `i` by one of three paths: at the
length it appends; elsewhere it first replaces a full buffer by one of the next size of the
growth rule, and then shifts the elements from `i` on one slot to the right.
`ArrayFlow.Store.removeAt` takes the element at `i` out and shifts the rest back, in the same
buffer. Whatever the path, the elements come out the same:

* `ArrayFlow.Store.insertAt_of_le` – an index no greater than the length is accepted, and the
  new element stands between the first `i` elements and the rest;
* `ArrayFlow.Store.get_of_lt` and `ArrayFlow.Store.removeAt_of_lt` – reading and removing at an
  index below the length;
* `ArrayFlow.Store.insertAt_of_lt` and `ArrayFlow.Store.removeAt_of_le` – the refusals, which
  name the index and the length.

The main statement, `ArrayFlow.Store.removeAt_undoes_insertAt`, is that reading and removing at
the index of an insertion give back the element inserted, and the removal the elements as they
were.
-/

namespace ArrayFlow

namespace Store

variable {α : Type} (s : Store α)

/-! ### Insertion -/

/-- **Insertion at an index no greater than the length** is accepted, by whichever path: the
new element stands after the first `i` elements and before the rest. -/
theorem insertAt_of_le {i : Nat} (x : α) (hi : i ≤ s.items.length) :
    ∃ t, s.insertAt i x = .ok t ∧ t.items = s.items.take i ++ x :: s.items.drop i := by
  rcases Nat.lt_or_eq_of_le hi with hlt | rfl
  · -- inside the elements: room is made, then the tail shifts
    refine ⟨_, by rw [insertAt, if_neg (by omega), if_neg (by omega)], ?_⟩
    simp
  · -- at the end: an append
    exact ⟨s.append x, by simp [insertAt], by simp⟩

/-- An insertion past the length is refused, with the index and the length. -/
theorem insertAt_of_lt {i : Nat} (x : α) (hi : s.items.length < i) :
    s.insertAt i x = .error (.indexOutOfRange i s.items.length) := by
  simp [insertAt, hi]

/-! ### Reading and removal -/

/-- Reading below the length gives the element there. -/
theorem get_of_lt {i : Nat} (hi : i < s.items.length) : s.get i = .ok s.items[i] := by
  simp [get, List.getElem?_eq_getElem hi]

/-- **Removal below the length** gives the element there, and leaves the others in order in the
same buffer. -/
theorem removeAt_of_lt {i : Nat} (hi : i < s.items.length) :
    ∃ u, s.removeAt i = .ok (s.items[i], u) ∧ u.items = s.items.eraseIdx i ∧
      u.capacity = s.capacity ∧ u.reallocations = s.reallocations := by
  refine ⟨s.keep (s.items.eraseIdx i) (by simp [List.length_eraseIdx, hi]), ?_, rfl, rfl, rfl⟩
  rw [removeAt, dif_pos hi]

/-- A removal at or past the length is refused, with the index and the length. -/
theorem removeAt_of_le {i : Nat} (hi : s.items.length ≤ i) :
    s.removeAt i = .error (.indexOutOfRange i s.items.length) := by
  simp [removeAt, Nat.not_lt.mpr hi]

/-! ### The round trip -/

/-- **Removal undoes insertion.** At every index `i` no greater than the length, inserting `x`
gives the first `i` elements, `x`, and the rest; reading at `i` then gives `x`, and removing at
`i` gives `x` back and leaves exactly the original elements, whichever path the insertion took
(an append at the end, a grown buffer when it was full, a shift otherwise). An insertion past
the length, and a removal at or past it, are refused with the index and the length. -/
theorem removeAt_undoes_insertAt (x : α) :
    (∀ i, i ≤ s.items.length → ∃ t, s.insertAt i x = .ok t ∧
        t.items = s.items.take i ++ x :: s.items.drop i ∧ t.get i = .ok x ∧
        ∃ u, t.removeAt i = .ok (x, u) ∧ u.items = s.items) ∧
    (∀ i, s.items.length < i → s.insertAt i x = .error (.indexOutOfRange i s.items.length)) ∧
    (∀ i, s.items.length ≤ i → s.removeAt i = .error (.indexOutOfRange i s.items.length)) := by
  refine ⟨fun i hi => ?_, fun i hi => s.insertAt_of_lt x hi, fun i hi => s.removeAt_of_le hi⟩
  obtain ⟨t, ht, hitems⟩ := s.insertAt_of_le x hi
  -- the first `i` elements are all there, so `x` stands at index `i`
  have hprefix : (s.items.take i).length = i := by simp [hi]
  have hlen : i < t.items.length := by simp [hitems]; omega
  have hat : t.items[i] = x := by simp [hitems, List.getElem_append_right, hprefix]
  obtain ⟨u, hu, hu_items, -, -⟩ := t.removeAt_of_lt hlen
  refine ⟨t, ht, hitems, by rw [t.get_of_lt hlen, hat], u, by rw [hu, hat], ?_⟩
  rw [hu_items, hitems, List.eraseIdx_append_of_length_le (by omega), hprefix]
  simp

/-- Into the full buffer of `1, 2, 3`, `9` is inserted at the front by growing the buffer to
five slots and shifting; it is read back at index `0`, and removing it there restores
`1, 2, 3`. -/
theorem nine_inserted_at_front_then_removed :
    ∃ t, (ofList [1, 2, 3] : Store Nat).insertAt 0 9 = .ok t ∧ t.items = [9, 1, 2, 3] ∧
      t.capacity = 5 ∧ t.get 0 = .ok 9 ∧
      ∃ u, t.removeAt 0 = .ok (9, u) ∧ u.items = [1, 2, 3] := by
  obtain ⟨t, ht, hitems, hget, hremove⟩ :=
    (removeAt_undoes_insertAt (ofList [1, 2, 3]) 9).1 0 (Nat.zero_le _)
  have hcap : t.capacity = 5 := by
    cases Except.ok.inj (ht.symm.trans rfl)
    rfl
  exact ⟨t, ht, hitems, hcap, hget, hremove⟩

end Store

end ArrayFlow
