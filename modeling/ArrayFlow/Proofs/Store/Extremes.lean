import ArrayFlow.Proofs.Store.Searches

/-!
# The first of equal extremes

`ArrayFlow.Store.minByKeyM` and `ArrayFlow.Store.maxByKeyM` walk the elements once, keeping the
best key met so far with its element, and replace it only by a key that is strictly better. Ties
therefore go to the element met first.

Both are one walk, `ArrayFlow.Store.extremumByM`, with a strict comparison `better`. It is read
through the ranking `r` it is the strict part of (`better a b = !r b a`, `r a b` saying that key
`a` is at least as good as key `b`), which is total and transitive:

* `ArrayFlow.Store.FirstBest` – the element at the least index whose key is at least as good as
  every key; there is at most one (`ArrayFlow.Store.FirstBest.unique`);
* `ArrayFlow.Store.Leads` – **the invariant of the walk**: the best kept so far is the first
  best element of the elements walked, and nothing before the first;
* `ArrayFlow.Store.Leads.keepBetter` and `ArrayFlow.Store.leads_foldl` – one step keeps the
  invariant, and so does the whole walk; `ArrayFlow.Store.Leads.answer` reads the answer off it.

The main statement, `ArrayFlow.Store.extremes_prefer_first`: for a key into any type with a
total order given by `compare`, called once per element, in order, the least key search answers
nothing on an empty store and otherwise the first element of least key, and the greatest key
search the first element of greatest key.
-/

namespace ArrayFlow

namespace Store

variable {α κ : Type}

/-- `x`, at index `i` of `xs`, is **the first best element** by the key `k` under the ranking
`r`, where `r a b` says that key `a` is at least as good as key `b`: its key is at least as good
as every key of `xs`, and no element before it has that property. -/
structure FirstBest (r : κ → κ → Bool) (k : α → κ) (xs : List α) (i : Nat) (x : α) : Prop where
  at_index : xs[i]? = some x
  best : ∀ y ∈ xs, r (k x) (k y) = true
  first : ∀ y ∈ xs.take i, ∃ z ∈ xs, r (k y) (k z) = false

variable {r : κ → κ → Bool} {k : α → κ}

/-- There is one first best element: an element before another one cannot be best. -/
theorem FirstBest.unique {xs : List α} {i j : Nat} {x y : α} (hx : FirstBest r k xs i x)
    (hy : FirstBest r k xs j y) : i = j ∧ x = y := by
  -- the one of the two met first would fail to be best by the other's `first`
  have hnot : ∀ {i j : Nat} {x y : α}, FirstBest r k xs i x → FirstBest r k xs j y → ¬ i < j := by
    intro i j x y hx hy hij
    have hmem : x ∈ xs.take j :=
      List.mem_iff_getElem?.mpr ⟨i, by rw [List.getElem?_take, if_pos hij, hx.at_index]⟩
    obtain ⟨z, hz, hfalse⟩ := hy.first x hmem
    rw [hx.best z hz] at hfalse
    exact Bool.noConfusion hfalse
  have hij : i = j := by
    have := hnot hx hy
    have := hnot hy hx
    omega
  subst hij
  exact ⟨rfl, Option.some.inj (hx.at_index.symm.trans hy.at_index)⟩

/-- **The invariant of an extremum walk** over `xs`: nothing kept before the first element, and
afterwards the key and the element of the first best element of `xs`. -/
def Leads (r : κ → κ → Bool) (k : α → κ) (xs : List α) : Option (κ × α) → Prop
  | none => xs = []
  | some (c, x) => c = k x ∧ ∃ i, FirstBest r k xs i x

@[simp] theorem leads_none (xs : List α) : Leads r k xs none ↔ xs = [] := Iff.rfl

@[simp] theorem leads_some (xs : List α) (c : κ) (x : α) :
    Leads r k xs (some (c, x)) ↔ c = k x ∧ ∃ i, FirstBest r k xs i x :=
  Iff.rfl

/-- **What the invariant says at the end of a walk**: the element kept is nothing exactly when
there were no elements, and otherwise the first best one. -/
theorem Leads.answer {xs : List α} {best : Option (κ × α)} (hl : Leads r k xs best) :
    (best.map Prod.snd = none ↔ xs = []) ∧
      ∀ x, best.map Prod.snd = some x ↔ ∃ i, FirstBest r k xs i x := by
  cases best with
  | none =>
    obtain rfl := (leads_none xs).mp hl
    refine ⟨by simp, fun x => ?_⟩
    simp only [Option.map_none, reduceCtorEq, false_iff, not_exists]
    intro i hx
    simpa using hx.at_index
  | some p =>
    obtain ⟨c, y⟩ := p
    obtain ⟨-, i, hy⟩ := (leads_some _ _ _).mp hl
    refine ⟨?_, fun x => ⟨?_, ?_⟩⟩
    · simp only [Option.map_some, reduceCtorEq, false_iff]
      intro hnil
      simpa [hnil] using hy.at_index
    · intro hx
      obtain rfl : y = x := by simpa using hx
      exact ⟨i, hy⟩
    · rintro ⟨j, hx⟩
      simp [(hy.unique hx).2]

theorem keepBetter_some (better : κ → κ → Bool) (b c : κ) (x y : α) :
    keepBetter better (some (b, x)) c y = if better c b then some (c, y) else some (b, x) :=
  rfl

section Ranking

/-! ### One step and the whole walk

Throughout, `better` is the strict part of a total and transitive ranking `r`. -/

variable (better : κ → κ → Bool) (total : ∀ a b, r a b = true ∨ r b a = true)
  (trans : ∀ a b c, r a b = true → r b c = true → r a c = true)
  (hbetter : ∀ a b, better a b = !r b a)
include total trans hbetter

omit trans hbetter in
/-- Every key is as good as itself. -/
theorem rank_refl (a : κ) : r a a = true := (total a a).elim id id

/-- A strictly better key is at least as good as every key the kept one is. -/
theorem FirstBest.append_better {xs : List α} {i : Nat} {x y : α} (hx : FirstBest r k xs i x)
    (hy : better (k y) (k x) = true) : FirstBest r k (xs ++ [y]) xs.length y := by
  have hyx : r (k x) (k y) = false := by simpa [hbetter] using hy
  have hrank : r (k y) (k x) = true := (total (k x) (k y)).resolve_left (by simp [hyx])
  refine ⟨by simp, ?_, ?_⟩
  · intro z hz
    rcases List.mem_append.mp hz with hz | hz
    · exact trans _ _ _ hrank (hx.best z hz)
    · rw [List.mem_singleton.mp hz]
      exact rank_refl total (k y)
  · -- an earlier element at least as good as `y` would make `x` at least as good as `y`
    intro w hw
    refine ⟨y, by simp, ?_⟩
    cases hwy : r (k w) (k y)
    · rfl
    · have hw' : w ∈ xs := by simpa using hw
      rw [trans _ _ _ (hx.best w hw') hwy] at hyx
      exact Bool.noConfusion hyx

omit total trans in
/-- A key that is not strictly better leaves the first best element where it is. -/
theorem FirstBest.append_not_better {xs : List α} {i : Nat} {x y : α} (hx : FirstBest r k xs i x)
    (hy : better (k y) (k x) = false) : FirstBest r k (xs ++ [y]) i x := by
  have hxy : r (k x) (k y) = true := by simpa [hbetter] using hy
  have hi : i < xs.length := (List.getElem?_eq_some_iff.mp hx.at_index).1
  refine ⟨by rw [List.getElem?_append_left hi, hx.at_index], ?_, ?_⟩
  · intro z hz
    rcases List.mem_append.mp hz with hz | hz
    · exact hx.best z hz
    · rw [List.mem_singleton.mp hz]
      exact hxy
  · intro w hw
    rw [List.take_append_of_le_length (Nat.le_of_lt hi)] at hw
    obtain ⟨z, hz, hfalse⟩ := hx.first w hw
    exact ⟨z, List.mem_append_left _ hz, hfalse⟩

/-- **One step keeps the invariant**: keeping the better of the best so far and the next
element leads the walk one element further. -/
theorem Leads.keepBetter {xs : List α} {best : Option (κ × α)} (hl : Leads r k xs best) (y : α) :
    Leads r k (xs ++ [y]) (Store.keepBetter better best (k y) y) := by
  cases best with
  | none =>
    -- the first element is the first best of a single element
    obtain rfl := (leads_none xs).mp hl
    refine (leads_some _ _ _).mpr ⟨rfl, 0, rfl, ?_, by simp⟩
    simpa using rank_refl total (k y)
  | some p =>
    obtain ⟨c, x⟩ := p
    obtain ⟨rfl, i, hx⟩ := (leads_some _ _ _).mp hl
    rw [keepBetter_some]
    cases hy : better (k y) (k x)
    · simpa using ⟨i, hx.append_not_better better hbetter hy⟩
    · simpa using ⟨xs.length, hx.append_better better total trans hbetter hy⟩

/-- **The whole walk keeps the invariant**: from a best that leads `xs`, walking `ys` leads
`xs ++ ys`. -/
theorem leads_foldl {xs : List α} {best : Option (κ × α)} (hl : Leads r k xs best)
    (ys : List α) :
    Leads r k (xs ++ ys) (ys.foldl (fun b y => Store.keepBetter better b (k y) y) best) := by
  induction ys generalizing xs best with
  | nil => simpa using hl
  | cons y ys ih =>
    rw [List.foldl_cons, ← List.singleton_append, ← List.append_assoc]
    exact ih (hl.keepBetter better total trans hbetter y)

variable {m : Type → Type} [Monad m] [LawfulMonad m]

/-- **An extremum walk** with a key that announces its calls asks the key about every element
once, in order, and answers nothing on no elements and otherwise the first best element. -/
theorem extremumByM_firstBest (s : Store α) (note : α → m Unit) :
    ∃ o, s.extremumByM (announced note k) better = (do s.items.forM note; pure o) ∧
      (o = none ↔ s.items = []) ∧ ∀ x, o = some x ↔ ∃ i, FirstBest r k s.items i x := by
  have hstep : (fun best x => (do pure (Store.keepBetter better best (← announced note k x) x) :
      m (Option (κ × α)))) =
        fun best x => (do note x; pure (Store.keepBetter better best (k x) x)) := by
    funext best x
    simp [announced]
  have hwalk := leads_foldl better total trans hbetter (k := k)
    ((leads_none []).mpr rfl) s.items
  rw [List.nil_append] at hwalk
  exact ⟨_, by rw [extremumByM, hstep, foldlM_announced]; simp, hwalk.answer⟩

end Ranking

/-! ### Least and greatest keys

A total order given by `compare` ranks keys by `isLE` for the least key and by `isGE` for the
greatest; the strict comparisons of the two searches are the strict parts of these rankings. -/

section Compare

variable [Ord κ] [Std.TransOrd κ]

theorem compare_swap (a b : κ) : compare b a = (compare a b).swap :=
  Std.OrientedCmp.eq_swap

theorem isLE_total (a b : κ) : (compare a b).isLE = true ∨ (compare b a).isLE = true := by
  rw [compare_swap a b]
  cases compare a b <;> simp

theorem isLE_trans (a b c : κ) (hab : (compare a b).isLE = true) (hbc : (compare b c).isLE = true) :
    (compare a c).isLE = true :=
  Std.TransCmp.isLE_trans hab hbc

theorem lt_eq_not_isLE (a b : κ) : (compare a b == .lt) = !(compare b a).isLE := by
  rw [compare_swap a b]
  cases compare a b <;> rfl

theorem isGE_eq_isLE_swap (a b : κ) : (compare a b).isGE = (compare b a).isLE := by
  rw [compare_swap a b]
  cases compare a b <;> rfl

theorem isGE_total (a b : κ) : (compare a b).isGE = true ∨ (compare b a).isGE = true := by
  rw [isGE_eq_isLE_swap, isGE_eq_isLE_swap]
  exact (isLE_total a b).symm

theorem isGE_trans (a b c : κ) (hab : (compare a b).isGE = true) (hbc : (compare b c).isGE = true) :
    (compare a c).isGE = true := by
  rw [isGE_eq_isLE_swap] at hab hbc ⊢
  exact isLE_trans c b a hbc hab

theorem gt_eq_not_isGE (a b : κ) : (compare a b == .gt) = !(compare b a).isGE := by
  rw [isGE_eq_isLE_swap]
  cases compare a b <;> rfl

variable {m : Type → Type} [Monad m] [LawfulMonad m]

/-- **Ties go to the first.** Let a key into a type ordered totally by `compare` announce its
calls by `note`, in any lawful monad. The least key search and the greatest key search each call
the key once per element, in order. Each answers nothing exactly when the store is empty, and
otherwise the element at the least index whose key is no greater – respectively no less – than
every key of the store. -/
theorem extremes_prefer_first (s : Store α) (k : α → κ) (note : α → m Unit) :
    (∃ o, s.minByKeyM (announced note k) = (do s.items.forM note; pure o) ∧
      (o = none ↔ s.items = []) ∧
      ∀ x, o = some x ↔ ∃ i, FirstBest (fun a b => (compare a b).isLE) k s.items i x) ∧
    (∃ o, s.maxByKeyM (announced note k) = (do s.items.forM note; pure o) ∧
      (o = none ↔ s.items = []) ∧
      ∀ x, o = some x ↔ ∃ i, FirstBest (fun a b => (compare a b).isGE) k s.items i x) :=
  ⟨extremumByM_firstBest _ isLE_total isLE_trans lt_eq_not_isLE s note,
    extremumByM_firstBest _ isGE_total isGE_trans gt_eq_not_isGE s note⟩

end Compare

/-- Five pairs keyed by their second component, the key counting its calls: the least key `1`
first stands at index `1`, the greatest key `3` first at index `2`, and each search calls the
key five times. -/
theorem first_extremes_of_five :
    let s : Store (Nat × Nat) := ofList [(0, 2), (1, 1), (2, 3), (3, 1), (4, 3)]
    let note : Nat × Nat → StateM Nat Unit := fun _ => modify (· + 1)
    (s.minByKeyM (announced note Prod.snd)).run 0 = (some (1, 1), 5) ∧
      (s.maxByKeyM (announced note Prod.snd)).run 0 = (some (2, 3), 5) := by
  intro s note
  obtain ⟨⟨o, hmin, -, ho⟩, ⟨o', hmax, -, ho'⟩⟩ := extremes_prefer_first s Prod.snd note
  have hleast : o = some (1, 1) := (ho _).mpr ⟨1, rfl, by decide, by decide⟩
  have hgreatest : o' = some (2, 3) := (ho' _).mpr ⟨2, rfl, by decide, by decide⟩
  rw [hmin, hmax, hleast, hgreatest]
  exact ⟨rfl, rfl⟩

end Store

end ArrayFlow
