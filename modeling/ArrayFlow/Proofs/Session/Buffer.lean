import ArrayFlow.Session.Store
import ArrayFlow.Proofs.Store.Growth

/-!
# The buffer along a store session

Over a whole store session the buffer changes only as `ArrayFlow.Proofs.Store.Growth` allows:

* the store a session begins with grew from the room its start reserves, with no replacement
  counted before (`ArrayFlow.StoreStart.reserved`);
* each step that answers leaves a store its **buffer rule** allows
  (`ArrayFlow.StoreStep.BufferRule`): trimming may release room, a copy is a fresh store of the
  same elements, and every other step keeps the buffer or grows it;
* each step that fails leaves the store as it was.

`ArrayFlow.StoreStep.buffer_history` puts these together over every script. Steps run in the
monad of evaluation, so a step's outcome is read through `ArrayFlow.Eval.Always`: what every run
that does not halt gives, from any tally.
-/

namespace ArrayFlow

/-! ### What every finished run gives -/

/-- **What every finished run of a computation gives**: from any tally, a run that does not
halt gives a value that satisfies `P`. -/
def Eval.Always {β : Type} (P : β → Prop) (x : Eval β) : Prop :=
  ∀ t₀ v t₁, x.run.run t₀ = (.ok v, t₁) → P v

namespace Eval.Always

variable {β γ : Type}

protected theorem pure {P : β → Prop} {v : β} (h : P v) : Always P (pure v) := by
  intro t₀ w t₁ hrun
  cases hrun
  exact h

protected theorem bind {P : β → Prop} {Q : γ → Prop} {x : Eval β} {g : β → Eval γ}
    (hx : Always P x) (hg : ∀ a, P a → Always Q (g a)) : Always Q (x >>= g) := by
  intro t₀ v t₂ h
  rw [ExceptT.run_bind, StateT.run_bind] at h
  -- a halt of the first part ends the run; otherwise the rest runs on its value
  rcases hrun : x.run.run t₀ with ⟨_ | a, t₁⟩
  · rw [hrun] at h
    cases h
  · rw [hrun] at h
    exact hg a (hx t₀ a t₁ hrun) t₁ v t₂ h

protected theorem throw {P : β → Prop} (e : Halt) : Always P (throw e) := by
  intro t₀ v t₁ h
  cases h

protected theorem trivial {x : Eval β} : Always (fun _ => True) x := fun _ _ _ _ => True.intro

end Eval.Always

/-! ### The stores a step leaves -/

/-- A step's result leaves a store that satisfies `R`, when it leaves one. -/
def StepResult.LeavesIn (R : Store Int64 → Prop) : StepResult → Prop
  | .ok (_, t) => R t
  | .error _ => True

namespace StepResult

variable {R : Store Int64 → Prop}

theorem always_reply (r : Reply) {t : Store Int64} (h : R t) :
    Eval.Always (LeavesIn R) (reply r t) :=
  Eval.Always.pure h

theorem always_read {α : Type} {s : Store Int64} (e : Except Store.Error α) (f : α → Reply)
    (h : R s) : Eval.Always (LeavesIn R) (read s e f) := by
  apply Eval.Always.pure
  cases e <;> trivial

theorem always_change {α : Type} {e : Except Store.Error α} {f : α → Reply × Store Int64}
    (h : ∀ a, e = .ok a → R (f a).2) : Eval.Always (LeavesIn R) (change e f) := by
  apply Eval.Always.pure
  cases e with
  | error => trivial
  | ok a => exact h a rfl

/-- A step that reads the store, asking its functions first, leaves the store as it is. -/
theorem always_bind_reply {β : Type} (x : Eval β) (r : β → Reply) {s : Store Int64}
    (h : R s) : Eval.Always (LeavesIn R) (x >>= fun v => reply (r v) s) :=
  Eval.Always.bind Eval.Always.trivial fun _ _ => always_reply _ h

end StepResult

/-! ### Store operations that ask functions -/

namespace Store

variable (s : Store Int64)

theorem always_compactKeepingM (p : Int64 → Eval Bool) :
    Eval.Always (GrowsTo s) (s.compactKeepingM p) :=
  Eval.Always.bind Eval.Always.trivial fun _ _ =>
    Eval.Always.pure (growsTo_of_buffer rfl rfl)

theorem always_tryCompactKeepingM (p : Int64 → Eval (Except Int64 Bool)) :
    Eval.Always (fun res => GrowsTo s res.2) (s.tryCompactKeepingM p) := by
  unfold tryCompactKeepingM
  refine Eval.Always.bind Eval.Always.trivial ?_
  -- the sweep keeps the buffer whether or not the predicate refused
  rintro ⟨marks, _ | e⟩ -
  · exact Eval.Always.pure (growsTo_of_buffer rfl rfl)
  · exact Eval.Always.pure (growsTo_of_buffer rfl rfl)

theorem always_sortWithM (lt : Int64 → Int64 → Eval Bool) :
    Eval.Always (GrowsTo s) (s.sortWithM lt) :=
  Eval.Always.bind Eval.Always.trivial fun _ _ => Eval.Always.pure (growsTo_arrange s _)

end Store

/-! ### One step -/

/-- **The buffer rule of a step**: trimming may release room, a copy is a fresh store of the
same elements, and every other step keeps the buffer or grows it. -/
def StoreStep.BufferRule : StoreStep → Store Int64 → Store Int64 → Prop
  | .trim, s, t => s.Released t
  | .trimIf _, s, t => s.Released t
  | .copy, s, t => t = .ofList s.items
  | _, s, t => s.GrowsTo t

open StepResult in
/-- **Every step keeps its buffer rule**, whatever its functions answer. -/
theorem StoreStep.always_bufferRule (s : Store Int64) (step : StoreStep) :
    Eval.Always (LeavesIn (step.BufferRule s)) (step.run s) := by
  have hkeep : s.GrowsTo s := .refl s
  cases step with
  | first | last | length | isEmpty | capacity | reallocations | indexOf _ | lastIndexOf _
  | contains _ | indexed | sameItems _ | render | distinct | toSorted =>
    exact always_reply _ hkeep
  | get _ | slice _ _ | sectionCount _ | «section» _ _ | chunk _ =>
    exact always_read _ _ hkeep
  | select _ | reject _ | takeWhile _ | dropWhile _ | collect _ | flatCollect _
  | collectIf _ _ | detect _ | detectIndex _ | anySatisfy _ | allSatisfy _ | noneSatisfy _
  | count _ | injectInto _ | minByKey _ | maxByKey _ | toSortedBy _ | groupBy _ =>
    exact always_bind_reply _ _ hkeep
  | partition _ | partitionWhile _ =>
    exact Eval.Always.bind Eval.Always.trivial fun _ _ => always_reply _ hkeep
  | index i =>
    simp only [run]
    split
    · exact always_reply _ hkeep
    · exact Eval.Always.throw _
  | sumOf _ =>
    refine Eval.Always.bind Eval.Always.trivial fun v _ => ?_
    cases v with
    | some _ => exact always_reply _ hkeep
    | none => exact Eval.Always.throw _
  | pipeline _ _ _ =>
    refine Eval.Always.bind Eval.Always.trivial fun v _ => ?_
    cases v with
    | error _ => exact Eval.Always.pure trivial
    | ok _ => exact always_bind_reply _ _ hkeep
  | set _ _ => exact always_change fun _ h => Store.growsTo_set h
  | append v => exact always_reply _ (s.growsTo_append v)
  | appendAll f => exact always_reply _ (s.growsTo_appendAll f)
  | insertAt _ _ => exact always_change fun _ h => Store.growsTo_insertAt h
  | insertRange _ _ => exact always_change fun _ h => Store.growsTo_insertRange h
  | removeAt _ => exact always_change fun _ h => Store.growsTo_removeAt h
  | removeItem _ | clear | sort | reverse =>
    exact always_reply _ (Store.growsTo_of_buffer rfl rfl)
  | compactKeeping p | removeIf p =>
    exact Eval.Always.bind (s.always_compactKeepingM _) fun _ h => always_reply _ h
  | tryCompactKeeping _ _ =>
    refine Eval.Always.bind (s.always_tryCompactKeepingM _) fun ⟨r, t⟩ h => ?_
    cases r with
    | ok _ => exact always_reply _ h
    | error _ => exact always_reply _ h
  | sortBy _ | sortByKey _ =>
    exact Eval.Always.bind (s.always_sortWithM _) fun _ h => always_reply _ h
  | ensureCapacity n => exact always_reply _ (s.growsTo_ensureCapacity n)
  | trim => exact always_reply _ (Store.released_trim s)
  | trimIf _ => exact always_change fun _ h => Store.released_trimIf h
  | copy => exact always_reply _ rfl

/-- **A copy is not a release of room**: six words appended one by one to the empty store sit in
a buffer of seven slots replaced four times; a copy of that store holds them in six slots and
counts no replacement. Its capacity dropped with nothing trimmed, and it neither grew from the
store nor released room from it. -/
theorem StoreStep.copy_lowers_capacity :
    (Store.ofAppends [0, 1, 2, 3, 4, 5] : Store Int64).capacity = 7 ∧
      (Store.ofAppends [0, 1, 2, 3, 4, 5] : Store Int64).reallocations = 4 ∧
      StoreStep.copy.run (Store.ofAppends [0, 1, 2, 3, 4, 5]) =
        pure (.ok (.unit, Store.ofList [0, 1, 2, 3, 4, 5])) ∧
      (Store.ofList [0, 1, 2, 3, 4, 5] : Store Int64).capacity = 6 ∧
      (Store.ofList [0, 1, 2, 3, 4, 5] : Store Int64).reallocations = 0 ∧
      ¬ (Store.ofAppends [0, 1, 2, 3, 4, 5]).GrowsTo (Store.ofList [0, 1, 2, 3, 4, 5]) ∧
      ¬ (Store.ofAppends [0, 1, 2, 3, 4, 5]).Released (Store.ofList [0, 1, 2, 3, 4, 5]) := by
  refine ⟨rfl, rfl, rfl, rfl, rfl, fun h => ?_, ?_⟩
  · -- growth never lowers the capacity, and the copy has fewer slots
    exact absurd h.le.1 (by decide)
  · unfold Store.Released
    decide

/-! ### A whole session -/

/-- **A transcript that kept the buffer rules**, read along the script from the store it began
with: each step that answered left a store its rule allows, and each step that failed left the
store as it was. -/
def StoreStep.Chronicle : List StoreStep → Store Int64 → List StepOutcome → Prop
  | step :: rest, s, .done _ _ t :: outcomes => step.BufferRule s t ∧ Chronicle rest t outcomes
  | _ :: rest, s, .failed _ t :: outcomes => t = s ∧ Chronicle rest s outcomes
  | _, _, _ => True

/-- Every run of a script keeps the buffer rules, step after step. -/
theorem StoreStep.chronicle_runAll :
    ∀ (steps : List StoreStep) (s : Store Int64) (t : Tally),
      Chronicle steps s (runAll steps s t)
  | [], _, _ => trivial
  | step :: rest, s, t => by
    unfold runAll
    split
    · trivial
    · exact ⟨rfl, chronicle_runAll rest s _⟩
    · next r s' t' h =>
      exact ⟨always_bufferRule s step _ _ _ h, chronicle_runAll rest s' t'⟩

/-- **The room a start reserves**: the slots of the buffer a store is built in, before any
element is added to it. A store built from a feed starts as the empty store. -/
def StoreStart.reserved : StoreStart → Nat
  | .empty => 0
  | .withCapacity c => c
  | .ofList xs => xs.length
  | .ofFeed _ => 0
  | .generate n _ => n

/-- A store is built in the room its start reserves, and grows from there. -/
theorem StoreStart.always_grows_reserved (start : StoreStart) :
    Eval.Always (fun s => Store.Grows start.reserved 0 s.capacity s.reallocations)
      start.build := by
  cases start with
  | empty | withCapacity _ | ofList _ => exact Eval.Always.pure (.rest _ _)
  | ofFeed f => exact Eval.Always.pure (Store.empty.growsTo_appendAll f)
  | generate n _ =>
    exact Eval.Always.bind Eval.Always.trivial fun ys _ =>
      Eval.Always.pure ((Store.withCapacity n).growsTo_appendEach ys)

/-- **The buffer along a store session.** The store a session begins with grew from the room
its start reserves, with no replacement counted before; then each step that answered left a
store its buffer rule allows (growth for every step but trimming and copying, a release of room
for trimming, a fresh store for a copy), and each step that failed left the store unchanged. -/
theorem StoreStep.buffer_history (start : StoreStart) (steps : List StoreStep)
    (tr : StoreTranscript) (h : start.session steps = .ok tr) :
    Store.Grows start.reserved 0 tr.initial.capacity tr.initial.reallocations ∧
      Chronicle steps tr.initial tr.steps := by
  unfold StoreStart.session at h
  split at h
  · cases h
  · next s t hbuild =>
    cases h
    exact ⟨start.always_grows_reserved _ _ _ hbuild, chronicle_runAll steps s t⟩

/-- A store built from a feed that promises nothing, then a refused insertion, a trim, a copy
and an append. -/
theorem StoreStep.buffer_history_of_lazy_feed :
    ∃ tr, (StoreStart.ofFeed (.lazy [1, 2, 3])).session
        [.insertAt 9 7, .trim, .copy, .append 4] = .ok tr ∧
      Store.Grows (StoreStart.ofFeed (.lazy [1, 2, 3])).reserved 0 tr.initial.capacity
        tr.initial.reallocations ∧
      Chronicle [.insertAt 9 7, .trim, .copy, .append 4] tr.initial tr.steps :=
  ⟨_, rfl, buffer_history _ _ _ rfl⟩

end ArrayFlow
