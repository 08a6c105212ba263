import Mathlib.Data.List.Dedup
import ArrayFlow.Proofs.Pipeline.Terminals
import ArrayFlow.Proofs.Store.Repeats

/-!
# Grouping in batches

Grouping by a key keeps a list of groups, one per key, and adds each element, or each batch's
part of a group, to the end of the first group of its key, opening a new last group for a new key.
A store does this element by element (`ArrayFlow.Store.addToGroup`); a strategy does it within
each batch (`ArrayFlow.Strategy.gather`), then adds each batch's parts to the final groups in
batch order (`ArrayFlow.Strategy.absorb`). All three are the one list operation
`ArrayFlow.Groups.add` once the groups' stores are read as their elements.

What a list of groups holds is read through two views: its keys, and the elements it holds under
a key (`ArrayFlow.Groups.part`, those of the first group of that key). **Groups gather** a list
`zs` (`ArrayFlow.Groups.Gathers`) when their keys are the keys of `zs` in the order they are first
met, and the part of each key is the elements of `zs` of that key, in order. The step lemma
`ArrayFlow.Groups.Gathers.absorb` says that adding the groups of `ys` to the groups of `zs` gives
the groups of `zs ++ ys`; grouping element by element, batch by batch, and merging the batches in
the order each batch gathered its groups are all runs of that step. Groups that gather a list are
determined by it (`ArrayFlow.Groups.Gathers.unique`).

A batch's groups are a map, walked in no fixed order. Adding them to the final groups changes
each key's group by that key's part alone (`ArrayFlow.Strategy.lookup_foldl_absorb`), so any
rearrangement of each batch's groups gives the same final groups, rearranged
(`ArrayFlow.Strategy.mergeGroups_perm`). Read as a map, they **partition** the outputs
(`ArrayFlow.Groups.Partitions`), and over a store they hold, key by key, the store's groups
(`ArrayFlow.Strategy.groupBy_partitions_outputs`).
-/

namespace ArrayFlow

namespace Groups

variable {α κ : Type}

/-- The groups of stores, each store read as its elements. -/
def elements (G : List (κ × Store α)) : List (κ × List α) := G.map fun g => (g.1, g.2.items)

@[simp] theorem elements_nil : elements ([] : List (κ × Store α)) = [] := rfl

@[simp] theorem map_fst_elements (G : List (κ × Store α)) :
    (elements G).map Prod.fst = G.map Prod.fst := by
  simp [elements]

/-! ### Adding to groups -/

section Add

variable [DecidableEq κ]

/-- **Adds a part to the groups**: the elements `ys` go to the end of the first group of key `k`,
or into a new last group when no group has that key. -/
def add : List (κ × List α) → κ → List α → List (κ × List α)
  | [], k, ys => [(k, ys)]
  | (k', zs) :: rest, k, ys => if k' == k then (k', zs ++ ys) :: rest else (k', zs) :: add rest k ys

/-- The elements held under key `k`: those of the first group of that key, none if there is
none. -/
def part (G : List (κ × List α)) (k : κ) : List α := (G.lookup k).getD []

/-- Adds the parts of a list of groups, first to last. -/
def addAll (G L : List (κ × List α)) : List (κ × List α) := L.foldl (fun G g => add G g.1 g.2) G

@[simp] theorem addAll_nil (G : List (κ × List α)) : addAll G [] = G := rfl

theorem addAll_cons (G : List (κ × List α)) (g : κ × List α) (L : List (κ × List α)) :
    addAll G (g :: L) = addAll (add G g.1 g.2) L := rfl

/-- Gathering one output into a batch's groups is adding it as a part of one element. -/
theorem gather_eq_add (G : List (κ × List α)) (k : κ) (y : α) :
    Strategy.gather G k y = add G k [y] := by
  induction G with
  | nil => rfl
  | cons g rest ih =>
    obtain ⟨k', zs⟩ := g
    simp only [Strategy.gather, add, ih]

/-- Adding a batch's part to the final groups is adding it to their elements. -/
theorem elements_absorb (G : List (κ × Store α)) (k : κ) (ys : List α) :
    elements (Strategy.absorb G k ys) = add (elements G) k ys := by
  induction G with
  | nil => simp [Strategy.absorb, elements, add]
  | cons g rest ih =>
    obtain ⟨k', st⟩ := g
    simp only [elements] at ih ⊢
    by_cases hk : k' == k <;> simp [Strategy.absorb, add, hk, ih]

/-- Adding one element to a store's groups is adding it to their elements. -/
theorem elements_addToGroup (G : List (κ × Store α)) (k : κ) (x : α) :
    elements (Store.addToGroup G k x) = add (elements G) k [x] := by
  induction G with
  | nil => simp [Store.addToGroup, elements, add]
  | cons g rest ih =>
    obtain ⟨k', st⟩ := g
    simp only [elements] at ih ⊢
    by_cases hk : k' == k <;> simp [Store.addToGroup, add, hk, ih]

end Add

/-! ### Pairs with distinct keys -/

section Keyed

variable {β : Type} [DecidableEq κ]

theorem lookup_eq_none_of_not_mem {G : List (κ × β)} {k : κ} (hk : k ∉ G.map Prod.fst) :
    G.lookup k = none :=
  List.lookup_eq_none_iff.mpr fun p hp => bne_iff_ne.mpr fun h => hk (by
    rw [h]
    exact List.mem_map_of_mem hp)

/-- In pairs with distinct keys, a key looks up the value it is paired with. -/
theorem lookup_eq_some_iff_mem {G : List (κ × β)} (hG : (G.map Prod.fst).Nodup) (k : κ) (v : β) :
    G.lookup k = some v ↔ (k, v) ∈ G := by
  induction G with
  | nil => simp
  | cons g G ih =>
    obtain ⟨k', v'⟩ := g
    rw [List.map_cons, List.nodup_cons] at hG
    by_cases hk : k = k'
    · subst hk
      -- the first pair holds the key, and no later pair does
      have hlater : (k, v) ∉ G := fun h => hG.1 (List.mem_map.mpr ⟨_, h, rfl⟩)
      simp [hlater, eq_comm]
    · simp [List.lookup_cons, beq_false_of_ne hk, hk, ih hG.2]

/-- **Pairs with distinct keys, rearranged, look up alike.** -/
theorem lookup_perm {G G' : List (κ × β)} (h : G.Perm G') (hG : (G.map Prod.fst).Nodup)
    (k : κ) : G.lookup k = G'.lookup k := by
  have hG' : (G'.map Prod.fst).Nodup := (h.map Prod.fst).nodup_iff.mp hG
  cases hl : G.lookup k with
  | some v =>
    exact ((lookup_eq_some_iff_mem hG' k v).mpr
      (h.subset ((lookup_eq_some_iff_mem hG k v).mp hl))).symm
  | none =>
    cases hl' : G'.lookup k with
    | none => rfl
    | some v =>
      -- the pair found in `G'` is in `G` too
      have hv := (lookup_eq_some_iff_mem hG k v).mpr
        (h.symm.subset ((lookup_eq_some_iff_mem hG' k v).mp hl'))
      rw [hl] at hv
      cases hv

/-- **Pairs with distinct keys that look up alike are rearrangements of each other.** -/
theorem perm_of_lookup {G G' : List (κ × β)} (hG : (G.map Prod.fst).Nodup)
    (hG' : (G'.map Prod.fst).Nodup) (h : ∀ k, G.lookup k = G'.lookup k) : G.Perm G' := by
  refine (List.perm_ext_iff_of_nodup (hG.of_map _) (hG'.of_map _)).mpr fun ⟨k, v⟩ => ?_
  rw [← lookup_eq_some_iff_mem hG, ← lookup_eq_some_iff_mem hG', h]

end Keyed

/-! ### The two views of an addition -/

section Views

variable [DecidableEq κ]

@[simp] theorem part_nil (k : κ) : part ([] : List (κ × List α)) k = [] := rfl

theorem part_cons (k' : κ) (zs : List α) (rest : List (κ × List α)) (k : κ) :
    part ((k', zs) :: rest) k = if k = k' then zs else part rest k := by
  unfold part
  by_cases h : k = k'
  · subst h
    simp
  · simp [List.lookup_cons, beq_false_of_ne h, h]

/-- A key keeps its place, and a new key comes last. -/
theorem keys_add (G : List (κ × List α)) (k : κ) (ys : List α) :
    (add G k ys).map Prod.fst =
      if k ∈ G.map Prod.fst then G.map Prod.fst else G.map Prod.fst ++ [k] := by
  induction G with
  | nil => simp [add]
  | cons g rest ih =>
    obtain ⟨k', zs⟩ := g
    by_cases hk : k' = k
    · subst hk
      simp [add]
    · have hk' : k ≠ k' := Ne.symm hk
      simp only [add, beq_iff_eq, hk, if_false, List.map_cons, ih, List.mem_cons, hk', false_or]
      split <;> rfl

/-- The part added goes to the end of the part of its key, and no other part changes. -/
theorem part_add (G : List (κ × List α)) (k : κ) (ys : List α) (k'' : κ) :
    part (add G k ys) k'' = part G k'' ++ if k'' = k then ys else [] := by
  induction G with
  | nil => by_cases h : k'' = k <;> simp [add, part_cons, h]
  | cons g rest ih =>
    obtain ⟨k', zs⟩ := g
    by_cases hk : k' = k
    · subst hk
      by_cases h : k'' = k' <;> simp [add, part_cons, h]
    · simp only [add, beq_iff_eq, hk, if_false, part_cons, ih]
      by_cases h : k'' = k'
      · subst h
        simp [hk]
      · simp [h]

/-- **Adding a list of parts**: the new keys come last, in the order they are first met, and each
key's part grows by the parts of that key, in order. -/
theorem keys_addAll (G L : List (κ × List α)) :
    (addAll G L).map Prod.fst =
      G.map Prod.fst ++ Store.firstOccurrences (G.map Prod.fst) (L.map Prod.fst) := by
  induction L generalizing G with
  | nil => simp
  | cons g L ih =>
    rw [addAll_cons, ih, keys_add, List.map_cons, Store.firstOccurrences_cons]
    split
    · rfl
    · -- the new key is seen from here on, whether it stands first or last among the seen
      rw [List.append_assoc, List.singleton_append]
      congr 2
      exact Store.firstOccurrences_congr (fun y => by simp [or_comm]) _

theorem part_addAll (G L : List (κ × List α)) (k : κ) :
    part (addAll G L) k = part G k ++ (L.filter (·.1 == k)).flatMap (·.2) := by
  induction L generalizing G with
  | nil => simp
  | cons g L ih =>
    rw [addAll_cons, ih, part_add]
    by_cases h : k = g.1
    · simp [h]
    · simp [h, beq_false_of_ne (Ne.symm h)]

/-- Of groups with distinct keys, the parts of one key are the part of that key. -/
theorem flatMap_filter_eq_part {L : List (κ × List α)} (hL : (L.map Prod.fst).Nodup) (k : κ) :
    (L.filter (·.1 == k)).flatMap (·.2) = part L k := by
  induction L with
  | nil => rfl
  | cons g L ih =>
    obtain ⟨k', zs⟩ := g
    rw [List.map_cons, List.nodup_cons] at hL
    rw [part_cons, ← ih hL.2]
    by_cases h : k = k'
    · subst h
      -- no later group has the key of the first
      have hnone : L.filter (·.1 == k) = [] := by
        refine List.filter_eq_nil_iff.mpr fun g hg hgk => hL.1 ?_
        rw [← beq_iff_eq.mp hgk]
        exact List.mem_map.mpr ⟨g, hg, rfl⟩
      simp [hnone]
    · simp [h, beq_false_of_ne (Ne.symm h)]

/-- In groups with distinct keys, the part of a group's key is that group. -/
theorem part_of_mem {G : List (κ × List α)} (hG : (G.map Prod.fst).Nodup) {g : κ × List α}
    (hg : g ∈ G) : part G g.1 = g.2 := by
  rw [part, (lookup_eq_some_iff_mem hG g.1 g.2).mpr hg]
  rfl

/-- Groups with distinct keys are their keys, each with its part. -/
theorem eq_map_part {G : List (κ × List α)} (hG : (G.map Prod.fst).Nodup) :
    G = (G.map Prod.fst).map fun k => (k, part G k) := by
  conv_lhs => rw [← List.map_id G]
  rw [List.map_map]
  exact List.map_congr_left fun g hg => by simp [part_of_mem hG hg]

end Views

/-! ### Groups that gather a list -/

section Gathers

variable [DecidableEq κ] (key : α → κ)

/-- **Groups gather `zs` by `key`**: their keys are the keys of `zs` in the order they are first
met, and each key's part is the elements of `zs` of that key, in order. -/
def Gathers (zs : List α) (G : List (κ × List α)) : Prop :=
  G.map Prod.fst = Store.firstOccurrences [] (zs.map key) ∧
    ∀ k, part G k = zs.filter fun y => key y == k

theorem gathers_nil : Gathers key [] ([] : List (κ × List α)) := ⟨rfl, fun _ => rfl⟩

theorem gathers_single (y : α) : Gathers key [y] [(key y, [y])] := by
  refine ⟨by simp [Store.firstOccurrences_cons], fun k => ?_⟩
  by_cases h : k = key y
  · subst h
    simp [part_cons]
  · simp [part_cons, h, beq_false_of_ne (Ne.symm h)]

variable {key}

/-- Groups that gather a list have one group per key. -/
theorem Gathers.nodup {zs : List α} {G : List (κ × List α)} (h : Gathers key zs G) :
    (G.map Prod.fst).Nodup := by
  rw [h.1]
  exact Store.nodup_firstOccurrences [] _

/-- **The step**: adding the groups of `ys` to the groups of `zs` gives the groups of
`zs ++ ys`. -/
theorem Gathers.absorb {zs ys : List α} {G B : List (κ × List α)} (hG : Gathers key zs G)
    (hB : Gathers key ys B) : Gathers key (zs ++ ys) (addAll G B) := by
  refine ⟨?_, fun k => ?_⟩
  · -- the keys of `ys` not met in `zs` come last, in the order `ys` first meets them
    rw [keys_addAll, hG.1, hB.1, List.map_append, Store.firstOccurrences_append,
      Store.firstOccurrences_firstOccurrences (fun y hy => by simp at hy), List.append_nil]
    congr 1
    exact Store.firstOccurrences_congr (fun y => by simp [Store.mem_firstOccurrences]) _
  · rw [part_addAll, flatMap_filter_eq_part hB.nodup, hG.2, hB.2, List.filter_append]

/-- Adding the outputs one at a time, each as a part of one element, gathers them. -/
theorem Gathers.foldl_add {zs : List α} {G : List (κ × List α)} (hG : Gathers key zs G)
    (ys : List α) : Gathers key (zs ++ ys) (ys.foldl (fun G y => add G (key y) [y]) G) := by
  induction ys generalizing zs G with
  | nil => simpa using hG
  | cons y ys ih =>
    have hstep : Gathers key (zs ++ [y]) (add G (key y) [y]) := hG.absorb (gathers_single key y)
    rw [List.foldl_cons]
    simpa using ih hstep

/-- **Groups that gather a list are determined by it**. -/
theorem Gathers.unique {zs : List α} {G G' : List (κ × List α)} (h : Gathers key zs G)
    (h' : Gathers key zs G') : G = G' := by
  rw [eq_map_part h.nodup, eq_map_part h'.nodup, h.1, h'.1]
  exact List.map_congr_left fun k _ => by rw [h.2, h'.2]

/-- Every group of groups that gather a list holds the elements of the list of its key. -/
theorem Gathers.eq_filter {zs : List α} {G : List (κ × List α)} (h : Gathers key zs G)
    {g : κ × List α} (hg : g ∈ G) : g.2 = zs.filter fun y => key y == g.1 := by
  rw [← part_of_mem h.nodup hg, h.2]

/-- The keys of groups that gather a list are the keys of its elements. -/
theorem Gathers.mem_keys {zs : List α} {G : List (κ × List α)} (h : Gathers key zs G) (k : κ) :
    k ∈ G.map Prod.fst ↔ ∃ y ∈ zs, key y = k := by
  rw [h.1, Store.mem_firstOccurrences]
  simp

end Gathers

/-! ### Groups that partition a list, in any order -/

section Partitions

variable [DecidableEq κ] (key : α → κ)

/-- **Groups partition `zs` by `key`**, read as a map, in whatever order: one group for each key
of the elements of `zs`, holding the elements of `zs` of that key, in order. -/
def Partitions (zs : List α) (G : List (κ × List α)) : Prop :=
  (G.map Prod.fst).Nodup ∧ (∀ k, k ∈ G.map Prod.fst ↔ ∃ y ∈ zs, key y = k) ∧
    ∀ g ∈ G, g.2 = zs.filter fun y => key y == g.1

variable {key} {zs : List α} {G G' : List (κ × List α)}

theorem Gathers.partitions (h : Gathers key zs G) : Partitions key zs G :=
  ⟨h.nodup, h.mem_keys, fun _ hg => h.eq_filter hg⟩

/-- A partition rearranged is a partition. -/
theorem Partitions.perm (h : Partitions key zs G) (hp : G'.Perm G) : Partitions key zs G' :=
  ⟨(hp.map Prod.fst).nodup_iff.mpr h.1, fun k => (hp.map Prod.fst).mem_iff.trans (h.2.1 k),
    fun g hg => h.2.2 g (hp.subset hg)⟩

/-- **Every element is in one group**: the sizes of the groups add up to the length of the
list. -/
theorem Partitions.sum_length (h : Partitions key zs G) :
    (G.map fun g => g.2.length).sum = zs.length := by
  -- the keys are a rearrangement of the distinct keys of the elements
  have hperm : (G.map Prod.fst).Perm (zs.map key).dedup :=
    (List.perm_ext_iff_of_nodup h.1 (List.nodup_dedup _)).mpr fun k => by simp [h.2.1 k]
  have hcount : ∀ g ∈ G, g.2.length = (zs.map key).count g.1 := by
    intro g hg
    rw [h.2.2 g hg, List.count, List.countP_map, List.countP_eq_length_filter]
    rfl
  calc (G.map fun g => g.2.length).sum
      = ((G.map Prod.fst).map fun k => (zs.map key).count k).sum := by
        rw [List.map_map]
        exact congrArg List.sum (List.map_congr_left hcount)
    _ = (((zs.map key).dedup).map fun k => (zs.map key).count k).sum := (hperm.map _).sum_eq
    _ = zs.length := by rw [List.sum_map_count_dedup_eq_length, List.length_map]

end Partitions

end Groups

/-! ### Grouping with pure functions -/

namespace Store

variable {m : Type → Type} [Monad m] [LawfulMonad m] {α κ : Type} [DecidableEq κ]

/-- **A store groups by a pure key** into groups that gather its elements. -/
theorem groupByM_pure (s : Store α) (key : α → κ) :
    ∃ G, s.groupByM (fun x => (pure (key x) : m κ)) = pure G ∧
      Groups.Gathers key s.items (Groups.elements G) := by
  refine ⟨s.items.foldl (fun G x => addToGroup G (key x) x) [], ?_, ?_⟩
  · simp [groupByM, List.foldlM_pure]
  · have h := (Groups.gathers_nil key).foldl_add s.items
    rw [List.nil_append] at h
    rwa [← Groups.elements_nil, List.foldl_hom Groups.elements
      fun G x => (Groups.elements_addToGroup G (key x) x).symm] at h

end Store

namespace Strategy

/-! ### Any order of a batch's groups -/

section Order

variable {α κ : Type} [DecidableEq κ]

/-- **The frame of an addition to the final groups**: the group of the part's key receives the
part, opened empty if it is new, and no other group changes. -/
theorem lookup_absorb (G : List (κ × Store α)) (k : κ) (ys : List α) (k' : κ) :
    (absorb G k ys).lookup k' =
      if k' = k then some (((G.lookup k).getD Store.empty).appendAll (.exact ys))
      else G.lookup k' := by
  induction G with
  | nil =>
    by_cases h : k' = k
    · subst h
      simp [absorb]
    · simp [absorb, List.lookup_cons, h, beq_false_of_ne h]
  | cons g G ih =>
    obtain ⟨k'', st⟩ := g
    by_cases h : k' = k''
    · -- the first group is the one looked up
      subst h
      by_cases hk : k' = k
      · subst hk
        simp [absorb]
      · simp [absorb, hk, beq_false_of_ne hk]
    · by_cases hk : k'' = k
      · subst hk
        simp [absorb, List.lookup_cons, h, beq_false_of_ne h]
      · simp [absorb, List.lookup_cons, ih, beq_false_of_ne h, beq_false_of_ne hk,
          beq_false_of_ne (Ne.symm hk)]

theorem nodup_keys_absorb {G : List (κ × Store α)} (hG : (G.map Prod.fst).Nodup) (k : κ)
    (ys : List α) : ((absorb G k ys).map Prod.fst).Nodup := by
  rw [← Groups.map_fst_elements, Groups.elements_absorb, Groups.keys_add,
    Groups.map_fst_elements]
  split
  · exact hG
  · next hk => exact hG.append (List.nodup_singleton k) (by simpa using hk)

/-- Adding parts keeps the keys distinct. -/
theorem nodup_keys_foldl_absorb (L : List (κ × List α)) :
    ∀ G : List (κ × Store α), (G.map Prod.fst).Nodup →
      ((L.foldl (fun acc g => absorb acc g.1 g.2) G).map Prod.fst).Nodup := by
  induction L with
  | nil => exact fun _ hG => hG
  | cons g L ih => exact fun G hG => ih _ (nodup_keys_absorb hG g.1 g.2)

/-- **One batch's groups added to the final groups**: with one part per key, the group of each
key receives that key's part, if there is one. -/
theorem lookup_foldl_absorb (B : List (κ × List α)) (hB : (B.map Prod.fst).Nodup)
    (G : List (κ × Store α)) (k : κ) :
    (B.foldl (fun acc g => absorb acc g.1 g.2) G).lookup k =
      ((B.lookup k).map fun ys => ((G.lookup k).getD Store.empty).appendAll (.exact ys)).or
        (G.lookup k) := by
  induction B generalizing G with
  | nil => simp
  | cons g B ih =>
    obtain ⟨k', ys⟩ := g
    rw [List.map_cons, List.nodup_cons] at hB
    rw [List.foldl_cons, ih hB.2, lookup_absorb]
    by_cases h : k = k'
    · subst h
      -- no later part has the key of the first
      simp [Groups.lookup_eq_none_of_not_mem hB.1]
    · simp [h, List.lookup_cons, beq_false_of_ne h]

/-- Merging keeps the keys distinct. -/
theorem nodup_keys_mergeGroups (order : Nat → List (κ × List α) → List (κ × List α)) :
    ∀ (bs : List (List (κ × List α))) (i : Nat) (G : List (κ × Store α)),
      (G.map Prod.fst).Nodup → ((mergeGroups order i G bs).map Prod.fst).Nodup
  | [], _, _, hG => hG
  | _ :: bs, i, G, hG =>
    nodup_keys_mergeGroups order bs (i + 1) _ (nodup_keys_foldl_absorb _ G hG)

variable {order order' : Nat → List (κ × List α) → List (κ × List α)}

/-- **The run of the merge, in two orders**: when each batch's groups, one per key, are met in
orders that rearrange them, final groups that look up alike stay alike, batch after batch. -/
theorem lookup_mergeGroups_perm (ho : ∀ i B, (order i B).Perm B)
    (ho' : ∀ i B, (order' i B).Perm B) :
    ∀ (bs : List (List (κ × List α))) (i : Nat) (G G' : List (κ × Store α)),
      (∀ B ∈ bs, (B.map Prod.fst).Nodup) → (∀ k, G.lookup k = G'.lookup k) →
        ∀ k, (mergeGroups order i G bs).lookup k = (mergeGroups order' i G' bs).lookup k
  | [], _, _, _, _, h => h
  | B :: bs, i, G, G', hbs, h => by
    have hB := hbs B List.mem_cons_self
    have hoB := ((ho i B).map Prod.fst).nodup_iff.mpr hB
    have hoB' := ((ho' i B).map Prod.fst).nodup_iff.mpr hB
    intro k
    simp only [mergeGroups]
    refine lookup_mergeGroups_perm ho ho' bs (i + 1) _ _
      (fun B' hB' => hbs B' (List.mem_cons_of_mem B hB')) (fun k => ?_) k
    -- the batch gives each key the same part in both orders
    rw [lookup_foldl_absorb _ hoB, lookup_foldl_absorb _ hoB', Groups.lookup_perm (ho i B) hoB,
      Groups.lookup_perm (ho' i B) hoB', h]

/-- **Any order of each batch's groups gives the same final groups**, rearranged. -/
theorem mergeGroups_perm (ho : ∀ i B, (order i B).Perm B) (ho' : ∀ i B, (order' i B).Perm B)
    (bs : List (List (κ × List α))) (hbs : ∀ B ∈ bs, (B.map Prod.fst).Nodup) (i : Nat)
    (G : List (κ × Store α)) (hG : (G.map Prod.fst).Nodup) :
    (mergeGroups order i G bs).Perm (mergeGroups order' i G bs) :=
  Groups.perm_of_lookup (nodup_keys_mergeGroups order bs i G hG)
    (nodup_keys_mergeGroups order' bs i G hG)
    (lookup_mergeGroups_perm ho ho' bs i G G hbs fun _ => rfl)

end Order

/-! ### The groups of a strategy -/

variable {ε : Type} {n : Type → Type} [Monad n] [LawfulMonad n] {α κ : Type} [DecidableEq κ]

/-- Adding a batch's groups to the final groups, group after group, adds their parts. -/
theorem elements_foldl_absorb (acc : List (κ × Store α)) (B : List (κ × List α)) :
    Groups.elements (B.foldl (fun acc g => absorb acc g.1 g.2) acc) =
      Groups.addAll (Groups.elements acc) B :=
  (List.foldl_hom Groups.elements fun acc g => (Groups.elements_absorb acc g.1 g.2).symm).symm

/-- A batch's outputs, gathered one at a time, are gathered. -/
theorem gathers_batch (key : α → κ) (ys : List α) :
    Groups.Gathers key ys (ys.foldl (fun G y => gather G (key y) y) []) := by
  simpa [Groups.gather_eq_add] using (Groups.gathers_nil key).foldl_add ys

/-- **The run of the merge** in the order each batch gathered its groups: merging groups that
gather each batch's outputs, batch after batch, gathers the outputs of all the batches, one
after the other. -/
theorem gathers_merge (key : α → κ) :
    ∀ (outs : List (List α)) (i : Nat) (zs : List α) (acc : List (κ × Store α)),
      Groups.Gathers key zs (Groups.elements acc) →
      Groups.Gathers key (zs ++ outs.flatten)
        (Groups.elements (mergeGroups (fun _ groups => groups) i acc
          (outs.map fun ys => ys.foldl (fun G y => gather G (key y) y) [])))
  | [], _, zs, acc, h => by simpa [mergeGroups] using h
  | ys :: outs, i, zs, acc, h => by
    rw [List.map_cons, mergeGroups, List.flatten_cons, ← List.append_assoc]
    apply gathers_merge key outs (i + 1) (zs ++ ys)
    rw [elements_foldl_absorb]
    exact h.absorb (gathers_batch key ys)

/-- **Grouping with pure stages**: under every strategy, the merge, in the given order, of the
groups each batch gathers of its outputs. -/
theorem groupBy_ofPure (s : Strategy) (xs : List α) (stages : List (PureStage α)) (key : α → κ)
    (order : Nat → List (κ × List α) → List (κ × List α)) :
    (s.groupBy (Pipeline.ofPure xs stages) (fun y => pure (key y)) order :
        ExceptT ε n (Except ε (List (κ × Store α)))) =
      pure (.ok (mergeGroups order 0 []
        ((s.batches (Pipeline.ofPure (m := ExceptT ε n) xs stages)).map fun b =>
          (PureStage.outputs stages b.inputs).foldl (fun G y => gather G (key y) y) []))) := by
  have hstep : (fun (groups : List (κ × List α)) y => (do
        pure (gather groups (← (pure (key y) : ExceptT ε n κ)) y) : ExceptT ε n _)) =
      fun groups y => pure (gather groups (key y) y) := by
    funext groups y
    simp
  have htask : ∀ b ∈ s.batches (Pipeline.ofPure (m := ExceptT ε n) xs stages),
      (b.fold [] fun groups y => do pure (gather groups (← pure (key y)) y)) =
        pure ((PureStage.outputs stages b.inputs).foldl (fun G y => gather G (key y) y) []) := by
    intro b hb
    rw [hstep, Batch.fold_of_lift (chain_of_mem_batches s _ b hb)]
  rw [groupBy, run_of_pure s _ _ _ htask, pure_bind]
  rfl

/-- **Grouping with pure stages, in any order**: whatever order each batch's groups are met in,
the groups are a rearrangement of one list of groups, which gathers the pipeline's outputs. -/
theorem groupBy_ofPure_perm (s : Strategy) (xs : List α) (stages : List (PureStage α))
    (key : α → κ) :
    ∃ G₀ : List (κ × Store α), Groups.Gathers key (PureStage.outputs stages xs) (Groups.elements G₀) ∧
      ∀ order : Nat → List (κ × List α) → List (κ × List α), (∀ i B, (order i B).Perm B) →
        ∃ G, (s.groupBy (Pipeline.ofPure xs stages) (fun y => pure (key y)) order :
            ExceptT ε n (Except ε (List (κ × Store α)))) = pure (.ok G) ∧ G.Perm G₀ := by
  let outs := (s.batches (Pipeline.ofPure (m := ExceptT ε n) xs stages)).map fun b =>
    PureStage.outputs stages b.inputs
  have hbs : ∀ B ∈ outs.map (fun ys => ys.foldl (fun G y => gather G (key y) y) []),
      (B.map Prod.fst).Nodup := by
    simp only [List.forall_mem_map]
    exact fun ys _ => (gathers_batch key ys).nodup
  refine ⟨mergeGroups (fun _ groups => groups) 0 [] (outs.map fun ys =>
    ys.foldl (fun G y => gather G (key y) y) []), ?_, fun order ho => ⟨_, ?_,
      mergeGroups_perm ho (fun _ _ => List.Perm.refl _) _ hbs 0 [] List.nodup_nil⟩⟩
  · have h := gathers_merge key outs 0 [] [] (Groups.gathers_nil key)
    rwa [List.nil_append, ← List.flatMap_def, flatMap_outputs_batches] at h
  · rw [groupBy_ofPure, List.map_map]
    rfl

/-- **Grouping does not depend on the strategy, nor on the order of a batch's groups.** With
pure stages and a pure key, sequential or parallel with batches of any size, and whatever order
each batch's map of groups is walked in, grouping answers one group for each key of the
pipeline's outputs, holding the outputs of that key in order, so that every output is in one
group; another order of the batches' groups gives the same groups, rearranged; and over a store
read through no stages, the groups hold, key by key, the elements of the store's own
grouping. -/
theorem groupBy_partitions_outputs (s : Strategy) (xs : List α)
    (stages : List (PureStage α)) (key : α → κ) (st : Store α) :
    let out := PureStage.outputs stages xs
    let keyOf : α → ExceptT ε n κ := fun y => pure (key y)
    ∀ order : Nat → List (κ × List α) → List (κ × List α), (∀ i B, (order i B).Perm B) →
      (∃ G, s.groupBy (ε := ε) (Pipeline.ofPure xs stages) keyOf order = pure (.ok G) ∧
        (G.map Prod.fst).Nodup ∧ (∀ k, k ∈ G.map Prod.fst ↔ ∃ y ∈ out, key y = k) ∧
        (∀ g ∈ G, g.2.items = out.filter fun y => key y == g.1) ∧
        (G.map fun g => g.2.items.length).sum = out.length ∧
        ∀ order' : Nat → List (κ × List α) → List (κ × List α), (∀ i B, (order' i B).Perm B) →
          ∃ G', s.groupBy (ε := ε) (Pipeline.ofPure xs stages) keyOf order' = pure (.ok G') ∧
            G'.Perm G) ∧
      ∃ G Gs, s.groupBy (ε := ε) (Pipeline.ofList st.items) keyOf order = pure (.ok G) ∧
        st.groupByM keyOf = pure Gs ∧ (Groups.elements G).Perm (Groups.elements Gs) := by
  intro out keyOf order horder
  obtain ⟨G₀, hG₀, hrun⟩ := groupBy_ofPure_perm (ε := ε) (n := n) s xs stages key
  obtain ⟨G, hG, hperm⟩ := hrun order horder
  have hP : Groups.Partitions key out (Groups.elements G) := hG₀.partitions.perm (hperm.map _)
  refine ⟨⟨G, hG, by simpa using hP.1, fun k => by simpa using hP.2.1 k,
    fun g hg => hP.2.2 _ (List.mem_map_of_mem hg), by simpa [Groups.elements,
      Function.comp_def] using hP.sum_length, fun order' horder' => ?_⟩, ?_⟩
  · obtain ⟨G', hG', hperm'⟩ := hrun order' horder'
    exact ⟨G', hG', hperm'.trans hperm.symm⟩
  · -- over a store, the groups and the store's groups gather the same elements
    obtain ⟨G₁, hG₁, hrun₁⟩ := groupBy_ofPure_perm (ε := ε) (n := n) s st.items [] key
    obtain ⟨G, hG, hperm⟩ := hrun₁ order horder
    obtain ⟨Gs, hGs, hGs'⟩ := Store.groupByM_pure (m := ExceptT ε n) st key
    refine ⟨G, Gs, by rw [ofList_eq_ofPure]; exact hG, hGs, ?_⟩
    rw [← hG₁.unique hGs']
    exact hperm.map _

/-- In batches of two, with each batch's groups met last key first, grouping `1, …, 5` by parity
gives one group per parity, each holding the elements of its parity in order. -/
theorem groupBy_parity_pairs :
    ∃ G, (Strategy.parallel ⟨2, by decide, ⟨1, by decide⟩⟩).groupBy (ε := String)
        (Pipeline.ofPure (m := ExceptT String Id) [1, 2, 3, 4, 5] []) (fun y => pure (y % 2))
        (fun _ groups => groups.reverse) = pure (.ok G) ∧
      (G.map Prod.fst).Nodup ∧
        ∀ g ∈ G, g.2.items = [1, 2, 3, 4, 5].filter fun y => y % 2 == g.1 := by
  obtain ⟨⟨G, hrun, hnodup, -, hgroups, -, -⟩, -⟩ :=
    groupBy_partitions_outputs (ε := String) (n := Id)
      (Strategy.parallel ⟨2, by decide, ⟨1, by decide⟩⟩) [1, 2, 3, 4, 5] [] (· % 2) Store.empty
      (fun _ groups => groups.reverse) fun _ groups => List.reverse_perm groups
  exact ⟨G, hrun, hnodup, hgroups⟩

end Strategy

end ArrayFlow
