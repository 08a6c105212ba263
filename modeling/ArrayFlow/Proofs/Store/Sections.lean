import ArrayFlow.Proofs.Bounds

/-!
# Sections tile the store

`ArrayFlow.Store.section?` cuts a store of `len` elements into `n` sections of
`⌊len / n⌋` elements, the last of which also takes the remainder. This module says exactly
which elements each section holds and that together they are the store:

* `ArrayFlow.Store.section?_zero` and `ArrayFlow.Store.section?_of_le` – no sections are refused
  whatever the index, and otherwise an index that is not below their number;
* `ArrayFlow.Store.section?_of_lt_last` and `ArrayFlow.Store.section?_last` – a section before the
  last holds the `⌊len / n⌋` elements from its start on, the last one everything from its start
  to the end, at least as many;
* `ArrayFlow.Store.flatten_pieces` – consecutive pieces of one size are a prefix, piece after
  piece, so the sections read in order are the store's elements, each once.

The main statement is `ArrayFlow.Store.sections_cover_in_order`.
-/

namespace ArrayFlow

namespace Store

variable {α : Type}

/-- Pieces of `q` elements from `0, q, 2q, …`, read one after the other, are a prefix. -/
theorem flatten_pieces (xs : List α) (q c : Nat) :
    ((List.range c).map fun k => (xs.drop (q * k)).take q).flatten = xs.take (q * c) := by
  induction c with
  | zero => simp
  | succ c ih =>
    rw [List.range_succ, List.map_append, List.flatten_append, ih, Nat.mul_succ, List.take_add]
    simp

/-- A walk in which every step answers is answered by the list of the answers. -/
theorem mapM_eq_ok {ε β γ : Type} (f : β → Except ε γ) (g : β → γ) :
    ∀ ks : List β, (∀ k ∈ ks, f k = .ok (g k)) → ks.mapM f = .ok (ks.map g)
  | [], _ => rfl
  | k :: ks, h => by
    rw [List.mapM_cons, h k List.mem_cons_self,
      mapM_eq_ok f g ks fun k' hk' => h k' (List.mem_cons_of_mem k hk')]
    rfl

variable (s : Store α)

/-! ### Each section -/

theorem section?_zero (k : Nat) : s.section? k 0 = .error (.invalidArgument .zeroSectionCount) := by
  simp [section?]

theorem section?_of_le {k n : Nat} (hn : 0 < n) (hk : n ≤ k) :
    s.section? k n = .error (.invalidArgument .sectionIndexTooLarge) := by
  simp [section?, Nat.pos_iff_ne_zero.mp hn, hk]

/-- **A section before the last** holds `⌊len / n⌋` elements from its start on. -/
theorem section?_of_lt_last {k n : Nat} (hk : k + 1 < n) :
    s.section? k n =
      .ok ((s.items.drop (s.items.length / n * k)).take (s.items.length / n)) := by
  have hne : k ≠ n - 1 := by omega
  simp [section?, Nat.pos_iff_ne_zero.mp (Nat.lt_of_le_of_lt (Nat.zero_le _) hk),
    Nat.not_le.mpr (Nat.lt_of_succ_lt hk), hne, List.drop_take]

/-- **The last section** holds every element from its start to the end. -/
theorem section?_last {n : Nat} (hn : 0 < n) :
    s.section? (n - 1) n = .ok (s.items.drop (s.items.length / n * (n - 1))) := by
  simp [section?, Nat.pos_iff_ne_zero.mp hn, Nat.sub_lt hn Nat.one_pos]

/-- The last section is at least as long as the others: `n` sections of `⌊len / n⌋` fit. -/
theorem div_le_sub_last (len : Nat) {n : Nat} (hn : 0 < n) :
    len / n ≤ len - len / n * (n - 1) := by
  obtain ⟨p, rfl⟩ : ∃ p, n = p + 1 := ⟨n - 1, by omega⟩
  have hfit : len / (p + 1) * (p + 1) ≤ len := Nat.div_mul_le_self len (p + 1)
  rw [Nat.mul_succ] at hfit
  rw [Nat.add_sub_cancel]
  omega

/-! ### All sections in order -/

/-- **The sections in order**: asking for sections `0, …, n - 1` answers each, and together they
are the store's elements. -/
theorem mapM_section? {n : Nat} (hn : 0 < n) :
    ∃ parts, (List.range n).mapM (fun k => s.section? k n) = .ok parts ∧
      parts.length = n ∧ parts.flatten = s.items := by
  let q := s.items.length / n
  let last := s.items.drop (q * (n - 1))
  have hrange : List.range n = List.range (n - 1) ++ [n - 1] := by
    rw [← List.range_succ, Nat.succ_eq_add_one, Nat.sub_add_cancel hn]
  -- every section before the last is a piece of `q` elements
  have hmiddle : (List.range (n - 1)).mapM (fun k => s.section? k n) =
      .ok ((List.range (n - 1)).map fun k => (s.items.drop (q * k)).take q) := by
    refine mapM_eq_ok _ _ _ fun k hk => ?_
    rw [section?_of_lt_last s (by simp at hk; omega), Nat.mul_comm]
  refine ⟨(List.range (n - 1)).map (fun k => (s.items.drop (q * k)).take q) ++ [last], ?_,
    by simp; omega, ?_⟩
  · rw [hrange, List.mapM_append, hmiddle, List.mapM_cons, section?_last s hn]
    rfl
  · rw [List.flatten_append, flatten_pieces]
    simp [last]

/-- **Sections cover the store in order.** No sections are refused first, whatever the index, and
otherwise an index that is not below their number. Of `n ≥ 1` sections of a store of `len`
elements, with `q = ⌊len / n⌋`, section `k < n - 1` holds the `q` elements from index `k * q`,
all within the store, and the last one those from `(n - 1) * q` to the end, `len - (n - 1) * q ≥ q`
of them. Asking for the sections `0, …, n - 1` in turn answers each, and together, in order, they
are the store's elements, each exactly once. -/
theorem sections_cover_in_order :
    (∀ k, s.section? k 0 = .error (.invalidArgument .zeroSectionCount)) ∧
    ∀ n, 0 < n →
      (∀ k, n ≤ k → s.section? k n = .error (.invalidArgument .sectionIndexTooLarge)) ∧
      (∀ k, k + 1 < n →
        s.section? k n =
          .ok ((s.items.drop (s.items.length / n * k)).take (s.items.length / n)) ∧
        s.items.length / n * k + s.items.length / n ≤ s.items.length) ∧
      s.section? (n - 1) n = .ok (s.items.drop (s.items.length / n * (n - 1))) ∧
      (s.items.drop (s.items.length / n * (n - 1))).length =
        s.items.length - s.items.length / n * (n - 1) ∧
      s.items.length / n ≤ s.items.length - s.items.length / n * (n - 1) ∧
      ∃ parts, (List.range n).mapM (fun k => s.section? k n) = .ok parts ∧
        parts.length = n ∧ parts.flatten = s.items := by
  refine ⟨s.section?_zero, fun n hn => ⟨fun k hk => s.section?_of_le hn hk,
    fun k hk => ⟨s.section?_of_lt_last hk, (section_bounds s.items.length (Nat.lt_of_succ_lt hk)).2 hk⟩,
    s.section?_last hn, List.length_drop, div_le_sub_last s.items.length hn, s.mapM_section? hn⟩⟩

/-- Eleven elements in three sections: `0, 1, 2`, then `3, 4, 5`, then the remaining five; a
fourth section and a count of zero are refused. -/
theorem three_sections_of_eleven :
    (ofList (List.range 11)).section? 1 3 = .ok [3, 4, 5] ∧
      (ofList (List.range 11)).section? 2 3 = .ok [6, 7, 8, 9, 10] ∧
      (ofList (List.range 11)).section? 3 3 = .error (.invalidArgument .sectionIndexTooLarge) ∧
      (ofList (List.range 11)).section? 0 0 = .error (.invalidArgument .zeroSectionCount) := by
  obtain ⟨hzero, hsome⟩ := sections_cover_in_order (ofList (List.range 11))
  obtain ⟨hlarge, hmiddle, hlast, -⟩ := hsome 3 (by decide)
  exact ⟨(hmiddle 1 (by decide)).1.trans rfl, hlast.trans rfl, hlarge 3 (by decide), hzero 0⟩

end Store

end ArrayFlow
