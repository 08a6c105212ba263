import ArrayFlow.Store.Edit
import ArrayFlow.Proofs.Store.Insertions

/-!
# Reserving room for a run at once

A run of elements whose number is known in advance – a feed that promises its whole length, or a
run inserted before an index – reserves room for all of them before the first is placed
(`ArrayFlow.Store.ensureCapacity`). That reservation is the only moment the buffer can change:
every element after it finds room.

* `ArrayFlow.Store.ReservesOnce` – **the buffer rule of a reserved run** of `n` elements: when
  they do not fit, the buffer is replaced once, by one of the next size of the growth rule or of
  exactly the room needed, whichever is larger; otherwise buffer and count are kept;
* `ArrayFlow.Store.reservesOnce_appendAll_exact` and `ArrayFlow.Store.insertRange_of_le` – both
  kinds of run follow it;
* `ArrayFlow.Store.grown_le_growthFor` – the same elements appended one by one with nothing
  reserved climb the orbit of the growth rule at least one step once they overflow the buffer,
  so they end with a buffer and a count no smaller.

The main statement, `ArrayFlow.Store.runs_reserve_once`, puts these together with what each run
does to the elements, and with the refusal of an index past the length, which is made before an
empty run is let through.
-/

namespace ArrayFlow

namespace Store

variable {α : Type}

/-! ### The buffer rule -/

/-- **The buffer rule of a reserved run**: `t` is `s` after a run of `n` elements. When they do
not fit in the buffer of `s`, it is replaced once, by one of the next size of the growth rule or
of exactly the room needed, whichever is larger; otherwise the buffer and the count are kept. -/
def ReservesOnce (s t : Store α) (n : Nat) : Prop :=
  if s.capacity < s.items.length + n then
    t.capacity = max (grown s.capacity) (s.items.length + n) ∧
      t.reallocations = s.reallocations + 1
  else t.capacity = s.capacity ∧ t.reallocations = s.reallocations

/-- The rule reads only the buffer and the count of the store after the run. -/
theorem ReservesOnce.of_buffer {s t u : Store α} {n : Nat} (h : ReservesOnce s t n)
    (hc : u.capacity = t.capacity) (hr : u.reallocations = t.reallocations) :
    ReservesOnce s u n := by
  unfold ReservesOnce at *
  rw [hc, hr]
  exact h

/-- An empty run changes nothing. -/
theorem reservesOnce_zero (s : Store α) : ReservesOnce s s 0 := by
  unfold ReservesOnce
  rw [if_neg (by have := s.length_le; omega)]
  exact ⟨rfl, rfl⟩

/-- **Reserving room for `n` more elements** follows the rule. -/
theorem reservesOnce_ensureCapacity (s : Store α) (n : Nat) :
    ReservesOnce s (s.ensureCapacity (s.items.length + n)) n := by
  unfold ReservesOnce ensureCapacity
  -- the rule and the reservation test the same overflow
  split <;> exact ⟨rfl, rfl⟩

/-! ### The two runs -/

/-- A feed that promises its length reserves room for all of it, then appends into that room. -/
theorem appendAll_exact_eq (s : Store α) (xs : List α) :
    s.appendAll (.exact xs) =
      ⟨s.items ++ xs, (s.ensureCapacity (s.items.length + xs.length)).capacity,
        (s.ensureCapacity (s.items.length + xs.length)).reallocations, by
          simpa using s.le_capacity_ensureCapacity (s.items.length + xs.length)⟩ := by
  have hroom := s.le_capacity_ensureCapacity (s.items.length + xs.length)
  show (s.ensureCapacity (s.items.length + xs.length)).appendEach xs = _
  rw [appendEach_of_le _ xs (by simpa using hroom)]
  ext <;> simp

/-- **Appending a feed that promises its length** follows the rule. -/
theorem reservesOnce_appendAll_exact (s : Store α) (xs : List α) :
    ReservesOnce s (s.appendAll (.exact xs)) xs.length := by
  rw [appendAll_exact_eq]
  exact (reservesOnce_ensureCapacity s xs.length).of_buffer rfl rfl

/-- **Inserting a run before an index the store accepts** splices it in and follows the rule. -/
theorem insertRange_of_le (s : Store α) {i : Nat} (xs : List α) (hi : i ≤ s.items.length) :
    ∃ t, s.insertRange i xs = .ok t ∧ t.items = s.items.take i ++ xs ++ s.items.drop i ∧
      ReservesOnce s t xs.length := by
  unfold insertRange
  rw [if_neg (by omega)]
  split
  · next hnil =>
    -- the empty run is let through with the store as it is
    obtain rfl : xs = [] := List.isEmpty_iff.mp hnil
    exact ⟨s, rfl, by simp, reservesOnce_zero s⟩
  · exact ⟨_, rfl, by simp, (reservesOnce_ensureCapacity s xs.length).of_buffer rfl rfl⟩

/-- An index past the length is refused, whatever the run. -/
theorem insertRange_of_lt (s : Store α) {i : Nat} (xs : List α) (hi : s.items.length < i) :
    s.insertRange i xs = .error (.indexOutOfRange i s.items.length) := by
  unfold insertRange
  rw [if_pos hi]

/-! ### Reserving nothing -/

/-- Appending one by one never shrinks the buffer nor lowers the count. -/
theorem le_growthFor (len cap r n : Nat) :
    cap ≤ (growthFor len cap r n).1 ∧ r ≤ (growthFor len cap r n).2 := by
  induction n generalizing len cap r with
  | zero => simp [growthFor]
  | succ n ih =>
    unfold growthFor
    split
    · next hfull =>
      -- the buffer is replaced by one of `grown len = grown cap` slots, which is larger
      have := ih (len + 1) (grown len) (r + 1)
      have := lt_grown len
      omega
    · exact ih (len + 1) cap r

/-- **Overflowing the buffer one by one** replaces it at least once, by one of at least the next
size of the growth rule: the first replacement happens when the elements reach the capacity. -/
theorem grown_le_growthFor {len cap r n : Nat} (hle : len ≤ cap) (hlt : cap < len + n) :
    grown cap ≤ (growthFor len cap r n).1 ∧ r + 1 ≤ (growthFor len cap r n).2 := by
  induction n generalizing len with
  | zero => omega
  | succ n ih =>
    unfold growthFor
    split
    · next hfull =>
      subst hfull
      exact le_growthFor (len + 1) (grown len) (r + 1) n
    · exact ih (by omega) (by omega)

/-- **Reserving at once is never worse**: the same elements appended with nothing promised end
with a buffer and a count at least those of the reserved run. -/
theorem appendAll_exact_le_lazy (s : Store α) (xs : List α) :
    (s.appendAll (.exact xs)).capacity ≤ (s.appendAll (Feed.lazy xs)).capacity ∧
      (s.appendAll (.exact xs)).reallocations ≤ (s.appendAll (Feed.lazy xs)).reallocations := by
  have hrule := reservesOnce_appendAll_exact s xs
  -- with nothing promised, the elements are appended one by one
  rw [appendAll_lazy, ← appendEach_eq_foldl]
  unfold ReservesOnce at hrule
  simp only [appendEach]
  split at hrule
  · next hlt =>
    obtain ⟨hc, hr⟩ := hrule
    obtain ⟨hg, hgr⟩ := grown_le_growthFor (r := s.reallocations) s.length_le hlt
    have hroom := add_le_growthFor s.items.length s.capacity s.reallocations xs.length s.length_le
    rw [hc, hr]
    exact ⟨Nat.max_le.mpr ⟨hg, hroom⟩, hgr⟩
  · obtain ⟨hc, hr⟩ := hrule
    rw [hc, hr]
    exact le_growthFor _ _ _ _

/-! ### Runs reserve once -/

/-- **Runs reserve once.** Appending a feed that promises its length gives the old elements
followed by the new ones, and inserting a run before an index no greater than the length splices
it in there; both follow the buffer rule of a reserved run: one replacement, to the larger of the
next size of the growth rule and the room needed, exactly when the run does not fit, and no
change otherwise, so an empty run changes nothing. An index past the length is refused even for an
empty run. The same elements appended with nothing promised give the same elements, with a buffer
and a count no smaller. -/
theorem runs_reserve_once :
    (∀ (s : Store α) (xs : List α), (s.appendAll (.exact xs)).items = s.items ++ xs ∧
      ReservesOnce s (s.appendAll (.exact xs)) xs.length) ∧
    (∀ (s : Store α) (i : Nat) (xs : List α), i ≤ s.items.length →
      ∃ t, s.insertRange i xs = .ok t ∧ t.items = s.items.take i ++ xs ++ s.items.drop i ∧
        ReservesOnce s t xs.length) ∧
    (∀ s : Store α, s.appendAll (.exact []) = s ∧
      ∀ i ≤ s.items.length, s.insertRange i [] = .ok s) ∧
    (∀ (s : Store α) (i : Nat) (xs : List α), s.items.length < i →
      s.insertRange i xs = .error (.indexOutOfRange i s.items.length)) ∧
    (∀ (s : Store α) (xs : List α),
      (s.appendAll (Feed.lazy xs)).items = (s.appendAll (.exact xs)).items ∧
      (s.appendAll (.exact xs)).capacity ≤ (s.appendAll (Feed.lazy xs)).capacity ∧
      (s.appendAll (.exact xs)).reallocations ≤ (s.appendAll (Feed.lazy xs)).reallocations) := by
  refine ⟨fun s xs => ⟨by simp, reservesOnce_appendAll_exact s xs⟩,
    fun s i xs hi => insertRange_of_le s xs hi, fun s => ⟨?_, fun i hi => ?_⟩,
    fun s i xs hi => insertRange_of_lt s xs hi,
    fun s xs => ⟨by simp, appendAll_exact_le_lazy s xs⟩⟩
  · have hfit : s.items.length + ([] : List α).length ≤ s.capacity := by
      simpa using s.length_le
    ext <;> simp [appendAll_exact_of_le s [] hfit]
  · simp [insertRange, Nat.not_lt.mpr hi]

/-- Three elements in a buffer of three, then ten inserted after the first: one replacement, to
the thirteen slots needed, and an index past the new length is refused. -/
theorem ten_inserted_after_one_reserve_once :
    let s : Store Nat := (withCapacity 3).appendAll (.exact [1, 2, 3])
    ∃ t, s.insertRange 1 (List.range' 10 10) = .ok t ∧
      t.items = [1, 10, 11, 12, 13, 14, 15, 16, 17, 18, 19, 2, 3] ∧
      t.capacity = 13 ∧ t.reallocations = 1 ∧
      t.insertRange 14 [0] = .error (.indexOutOfRange 14 13) := by
  intro s
  obtain ⟨t, ht, hitems, hrule⟩ := runs_reserve_once.2.1 s 1 (List.range' 10 10) (by decide)
  have hlen : t.items.length = 13 := by rw [hitems]; rfl
  unfold ReservesOnce at hrule
  rw [if_pos (by decide)] at hrule
  refine ⟨t, ht, hitems, hrule.1.trans (by decide), hrule.2.trans (by decide), ?_⟩
  rw [← hlen]
  exact runs_reserve_once.2.2.2.1 t 14 [0] (by omega)

end Store

end ArrayFlow
