import ArrayFlow.Proofs.Pipeline.Terminals

/-!
# Outcomes that do not depend on the state

Functions given to a pipeline run in a monad of failures over a state, the monad of evaluation
among them: a run may fail, and it changes the state (the calls it counts). A function is
**deterministic** (`ArrayFlow.Deterministic`) when whether it fails, and what it answers, do
not depend on the state it runs from. Such a function has an **outcome** of its own
(`ArrayFlow.Outcome`): a value of the monad of failures alone, the same from every state.

Outcomes carry through everything built from deterministic functions:

* through binds (`ArrayFlow.Outcome.bind`), so through the fused walk of a chain
  (`ArrayFlow.Stage.tryFold_outcome`) and through every operation of a batch;
* through the catching of failures (`ArrayFlow.Outcome.tryCatchThe`), so through a run of a
  strategy (`ArrayFlow.Strategy.run_outcome`).

The outcome of a pipeline's operation is then the same operation on the **settled** pipeline
(`ArrayFlow.Pipeline.settle`), whose stages answer in the monad of failures what the original
stages answer from a fixed state; questions about which failure is reported are asked there,
where no state is left.
-/

namespace ArrayFlow

variable {ε σ : Type}

/-! ### Outcomes -/

/-- **The outcome of a computation**, when it does not depend on the state: from every state, a
run fails with the same error, or answers the same value. -/
def Outcome {β : Type} (x : ExceptT ε (StateM σ) β) (o : Except ε β) : Prop :=
  ∀ s, (x.run.run s).1 = o

namespace Outcome

variable {β γ : Type}

protected theorem pure (v : β) : Outcome (pure v : ExceptT ε (StateM σ) β) (pure v) :=
  fun _ => rfl

protected theorem throw (e : ε) : Outcome (throw e : ExceptT ε (StateM σ) β) (throw e) :=
  fun _ => rfl

protected theorem bind {x : ExceptT ε (StateM σ) β} {o : Except ε β}
    {g : β → ExceptT ε (StateM σ) γ} {g' : β → Except ε γ} (hx : Outcome x o)
    (hg : ∀ v, Outcome (g v) (g' v)) : Outcome (x >>= g) (o >>= g') := by
  intro s
  rw [ExceptT.run_bind, StateT.run_bind]
  rcases hrun : x.run.run s with ⟨r, s'⟩
  have hr : r = o := by rw [← hx s, hrun]
  subst hr
  cases r with
  | error e => rfl
  | ok v => exact hg v s'

protected theorem map {x : ExceptT ε (StateM σ) β} {o : Except ε β} (f : β → γ)
    (hx : Outcome x o) : Outcome (f <$> x) (f <$> o) := by
  rw [map_eq_pure_bind, map_eq_pure_bind]
  exact hx.bind fun v => Outcome.pure (f v)

/-- Catching the failure of a computation with an outcome gives the outcome as an answer. -/
protected theorem tryCatchThe {x : ExceptT ε (StateM σ) β} {o : Except ε β}
    (hx : Outcome x o) :
    Outcome (tryCatchThe ε (Except.ok <$> x) fun e => pure (Except.error e)) (pure o) := by
  intro s
  show ((tryCatch (Except.ok <$> x) fun e => pure (Except.error e) :
    ExceptT ε (StateM σ) (Except ε β)).run.run s).1 = _
  rw [ExceptT.run_tryCatch, ExceptT.run_map, StateT.run_bind, StateT.run_map]
  rcases hrun : x.run.run s with ⟨r, s'⟩
  have hr : r = o := by rw [← hx s, hrun]
  subst hr
  cases r <;> rfl

/-- A list of computations with outcomes, run one after the other. -/
protected theorem mapM {α : Type} {f : α → ExceptT ε (StateM σ) β} {f' : α → Except ε β} :
    ∀ l : List α, (∀ x ∈ l, Outcome (f x) (f' x)) → Outcome (l.mapM f) (l.mapM f')
  | [], _ => Outcome.pure []
  | x :: xs, hf => by
    rw [List.mapM_cons, List.mapM_cons]
    exact (hf x (by simp)).bind fun v =>
      (Outcome.mapM xs fun y hy => hf y (by simp [hy])).bind fun vs => Outcome.pure (v :: vs)

/-- A left fold by a step with outcomes. -/
protected theorem foldlM {f : β → γ → ExceptT ε (StateM σ) β} {f' : β → γ → Except ε β}
    (hf : ∀ a b, Outcome (f a b) (f' a b)) :
    ∀ (l : List γ) (init : β), Outcome (l.foldlM f init) (l.foldlM f' init)
  | [], init => Outcome.pure init
  | x :: xs, init => by
    rw [List.foldlM_cons, List.foldlM_cons]
    exact (hf init x).bind fun v => Outcome.foldlM hf xs v

end Outcome

/-! ### Deterministic functions -/

section Deterministic

variable {α β : Type}

/-- **A deterministic function**: whether its run on an argument fails, and what it answers, do
not depend on the state it runs from; the state it leaves may. -/
def Deterministic (k : α → ExceptT ε (StateM σ) β) : Prop :=
  ∀ x s s', ((k x).run.run s).1 = ((k x).run.run s').1

/-- What a function answers from the state `s₀`, with the state left out. -/
def settle (s₀ : σ) (k : α → ExceptT ε (StateM σ) β) : α → Except ε β :=
  fun x => ((k x).run.run s₀).1

/-- A deterministic function answers, from every state, what it answers from `s₀`. -/
theorem Deterministic.outcome {k : α → ExceptT ε (StateM σ) β} (hk : Deterministic k)
    (s₀ : σ) (x : α) : Outcome (k x) (settle s₀ k x) :=
  fun s => hk x s s₀

end Deterministic

/-! ### Stages and the fused walk -/

namespace Stage

variable {α β : Type}

/-- A stage whose function is deterministic. -/
def Deterministic : Stage (ExceptT ε (StateM σ)) α → Prop
  | .filter keep => ArrayFlow.Deterministic keep
  | .map f => ArrayFlow.Deterministic f

/-- **The settled stage**: the same stage answering in the monad of failures what its function
answers from the state `s₀`. -/
def settle (s₀ : σ) : Stage (ExceptT ε (StateM σ)) α → Stage (Except ε) α
  | .filter keep => .filter (ArrayFlow.settle s₀ keep)
  | .map f => .map (ArrayFlow.settle s₀ f)

/-- An element goes through a chain of deterministic stages with the outcome it has through the
settled chain. -/
theorem pass_outcome (s₀ : σ) :
    ∀ (chain : List (Stage (ExceptT ε (StateM σ)) α)), (∀ st ∈ chain, st.Deterministic) →
      ∀ x, Outcome (pass chain x) (pass (chain.map (settle s₀)) x)
  | [], _, x => Outcome.pure (some x)
  | .filter keep :: rest, h, x => by
    have hkeep : ArrayFlow.Deterministic keep := h (.filter keep) (by simp)
    have hrest := pass_outcome s₀ rest fun st hst => h st (by simp [hst])
    refine (hkeep.outcome s₀ x).bind fun b => ?_
    cases b with
    | true => exact hrest x
    | false => exact Outcome.pure none
  | .map f :: rest, h, x => by
    have hf : ArrayFlow.Deterministic f := h (.map f) (by simp)
    exact (hf.outcome s₀ x).bind
      (pass_outcome s₀ rest (fun st hst => h st (by simp [hst])))

/-- **The fused walk of a deterministic chain** has the outcome of the walk of the settled chain,
with a step that has the outcome of the other's. -/
theorem tryFold_outcome (s₀ : σ) (chain : List (Stage (ExceptT ε (StateM σ)) α))
    (hc : ∀ st ∈ chain, st.Deterministic) {step : β → α → ExceptT ε (StateM σ) (ForInStep β)}
    {step' : β → α → Except ε (ForInStep β)}
    (hstep : ∀ acc y, Outcome (step acc y) (step' acc y)) :
    ∀ xs acc, Outcome (tryFold chain step xs acc) (tryFold (chain.map (settle s₀)) step' xs acc)
  | [], acc => Outcome.pure (ForInStep.yield acc)
  | x :: xs, acc => by
    rw [tryFold_cons, tryFold_cons]
    refine (pass_outcome s₀ chain hc x).bind fun o => ?_
    cases o with
    | none => exact tryFold_outcome s₀ chain hc hstep xs acc
    | some y =>
      refine (hstep acc y).bind fun r => ?_
      cases r with
      | done b => exact Outcome.pure (ForInStep.done b)
      | yield b => exact tryFold_outcome s₀ chain hc hstep xs b

end Stage

/-! ### Batches -/

namespace Batch

variable {α β : Type}

/-- **The settled batch**: the same range through the settled chain. -/
def settle (s₀ : σ) (b : Batch (ExceptT ε (StateM σ)) α) : Batch (Except ε) α :=
  ⟨b.source, b.chain.map (Stage.settle s₀), b.start, b.stop, b.start_le, b.stop_le⟩

section Outcomes

variable (s₀ : σ) {b : Batch (ExceptT ε (StateM σ)) α} (hb : ∀ st ∈ b.chain, st.Deterministic)
include hb

theorem tryFold_outcome {step : β → α → ExceptT ε (StateM σ) (ForInStep β)}
    {step' : β → α → Except ε (ForInStep β)} (hstep : ∀ acc y, Outcome (step acc y) (step' acc y))
    (init : β) : Outcome (b.tryFold init step) ((b.settle s₀).tryFold init step') :=
  Stage.tryFold_outcome s₀ b.chain hb hstep b.inputs init

theorem fold_outcome {f : β → α → ExceptT ε (StateM σ) β} {f' : β → α → Except ε β}
    (hf : ∀ acc y, Outcome (f acc y) (f' acc y)) (init : β) :
    Outcome (b.fold init f) ((b.settle s₀).fold init f') := by
  unfold fold
  refine (tryFold_outcome s₀ hb (fun acc y => (hf acc y).bind fun v => Outcome.pure _) init).bind
    fun r => ?_
  cases r <;> exact Outcome.pure _

theorem toList_outcome : Outcome b.toList (b.settle s₀).toList :=
  (fold_outcome s₀ hb (fun _ _ => Outcome.pure _) []).bind fun _ => Outcome.pure _

theorem forEach_outcome {proc : α → ExceptT ε (StateM σ) Unit} {proc' : α → Except ε Unit}
    (hp : ∀ y, Outcome (proc y) (proc' y)) :
    Outcome (b.forEach proc) ((b.settle s₀).forEach proc') :=
  fold_outcome s₀ hb (fun _ y => hp y) ()

theorem count_outcome {p : α → ExceptT ε (StateM σ) Bool} {p' : α → Except ε Bool}
    (hp : ∀ y, Outcome (p y) (p' y)) : Outcome (b.count p) ((b.settle s₀).count p') :=
  fold_outcome s₀ hb (fun _ y => (hp y).bind fun _ => Outcome.pure _) 0

theorem anySatisfy_outcome {p : α → ExceptT ε (StateM σ) Bool} {p' : α → Except ε Bool}
    (hp : ∀ y, Outcome (p y) (p' y)) :
    Outcome (b.anySatisfy p) ((b.settle s₀).anySatisfy p') := by
  unfold anySatisfy
  refine (tryFold_outcome s₀ hb (fun _ y => (hp y).bind fun c => ?_) false).bind fun r => ?_
  · cases c <;> exact Outcome.pure _
  · cases r <;> exact Outcome.pure _

theorem allSatisfy_outcome {p : α → ExceptT ε (StateM σ) Bool} {p' : α → Except ε Bool}
    (hp : ∀ y, Outcome (p y) (p' y)) :
    Outcome (b.allSatisfy p) ((b.settle s₀).allSatisfy p') := by
  unfold allSatisfy
  refine (tryFold_outcome s₀ hb (fun _ y => (hp y).bind fun c => ?_) true).bind fun r => ?_
  · cases c <;> exact Outcome.pure _
  · cases r <;> exact Outcome.pure _

theorem detect_outcome {p : α → ExceptT ε (StateM σ) Bool} {p' : α → Except ε Bool}
    (hp : ∀ y, Outcome (p y) (p' y)) : Outcome (b.detect p) ((b.settle s₀).detect p') := by
  unfold detect
  refine (tryFold_outcome s₀ hb (fun _ y => (hp y).bind fun c => ?_) none).bind fun r => ?_
  · cases c <;> exact Outcome.pure _
  · cases r <;> exact Outcome.pure _

/-- The outcome of the outputs of a batch through one more deterministic filter. -/
theorem select_outcome {keep : α → ExceptT ε (StateM σ) Bool} (hk : ArrayFlow.Deterministic keep) :
    Outcome (b.select keep).toList ((b.settle s₀).select (ArrayFlow.settle s₀ keep)).toList := by
  have hsettle : (b.select keep).settle s₀ = (b.settle s₀).select (ArrayFlow.settle s₀ keep) := by
    simp [settle, select, Stage.settle]
  rw [← hsettle]
  refine toList_outcome s₀ fun st hst => ?_
  rcases List.mem_append.mp hst with hst | hst
  · exact hb st hst
  · rw [List.mem_singleton.mp hst]
    exact hk

/-- The outcome of the outputs of a batch through one more deterministic map. -/
theorem collect_outcome {f : α → ExceptT ε (StateM σ) α} (hf : ArrayFlow.Deterministic f) :
    Outcome (b.collect f).toList ((b.settle s₀).collect (ArrayFlow.settle s₀ f)).toList := by
  have hsettle : (b.collect f).settle s₀ = (b.settle s₀).collect (ArrayFlow.settle s₀ f) := by
    simp [settle, collect, Stage.settle]
  rw [← hsettle]
  refine toList_outcome s₀ fun st hst => ?_
  rcases List.mem_append.mp hst with hst | hst
  · exact hb st hst
  · rw [List.mem_singleton.mp hst]
    exact hf

end Outcomes

end Batch

/-! ### Pipelines and strategies -/

namespace Pipeline

variable {α : Type}

/-- **The settled pipeline**: the same source through the settled chain. -/
def settle (s₀ : σ) (p : Pipeline (ExceptT ε (StateM σ)) α) : Pipeline (Except ε) α :=
  ⟨p.source, p.chain.map (Stage.settle s₀)⟩

/-- The batches of the settled pipeline are the settled batches. -/
theorem splitFrom_settle (s₀ : σ) (p : Pipeline (ExceptT ε (StateM σ)) α) (size : Nat)
    (h : 0 < size) (start : Nat) :
    (p.settle s₀).splitFrom size h start = (p.splitFrom size h start).map (Batch.settle s₀) := by
  fun_induction splitFrom p size h start with
  | case1 start hs ih =>
    rw [splitFrom, dif_pos (show start < (p.settle s₀).source.length from hs), List.map_cons]
    exact congrArg₂ List.cons rfl ih
  | case2 start hs =>
    rw [splitFrom, dif_neg (show ¬start < (p.settle s₀).source.length from hs)]
    rfl

end Pipeline

namespace Strategy

variable {α β : Type}

theorem batches_settle (s₀ : σ) (s : Strategy) (p : Pipeline (ExceptT ε (StateM σ)) α) :
    s.batches (p.settle s₀) = (s.batches p).map (Batch.settle s₀) := by
  cases s with
  | sequential => rfl
  | parallel par => exact p.splitFrom_settle s₀ _ _ 0

/-- In the monad of failures, catching the failure of an outcome answers the outcome. -/
theorem tryCatchThe_except (o : Except ε β) :
    (tryCatchThe ε (Except.ok <$> o) fun e => pure (Except.error e) : Except ε (Except ε β)) =
      pure o := by
  cases o <;> rfl

/-- **A run of a strategy** over tasks with outcomes has the outcome of the run over the
settled pipeline. -/
theorem run_outcome (s₀ : σ) (s : Strategy) (p : Pipeline (ExceptT ε (StateM σ)) α)
    {task : Batch (ExceptT ε (StateM σ)) α → ExceptT ε (StateM σ) β}
    {task' : Batch (Except ε) α → Except ε β}
    (h : ∀ b ∈ s.batches p, Outcome (task b) (task' (b.settle s₀))) :
    Outcome (s.run (ε := ε) p task) (s.run (ε := ε) (p.settle s₀) task') := by
  cases s with
  | sequential =>
    exact (h p.whole (List.mem_singleton_self _)).bind fun _ => Outcome.pure _
  | parallel par =>
    have hsplit := batches_settle s₀ (.parallel par) p
    simp only [batches] at hsplit h
    simp only [run, hsplit, List.mapM_map]
    refine (Outcome.mapM _ fun b hb => ?_).bind fun _ => Outcome.pure _
    simp only [Function.comp_apply, tryCatchThe_except]
    exact (h b hb).tryCatchThe

/-! ### The outcome of each terminal operation -/

section Operations

variable (s₀ : σ) (s : Strategy) {p : Pipeline (ExceptT ε (StateM σ)) α}
  (hp : ∀ st ∈ p.chain, st.Deterministic)
include hp

theorem deterministic_of_mem_batches :
    ∀ b ∈ s.batches p, ∀ st ∈ b.chain, st.Deterministic := by
  intro b hb
  rw [chain_of_mem_batches s p b hb]
  exact hp

theorem forEach_outcome {proc : α → ExceptT ε (StateM σ) Unit} (hproc : Deterministic proc) :
    Outcome (s.forEach (ε := ε) p proc) (s.forEach (ε := ε) (p.settle s₀) (settle s₀ proc)) :=
  (run_outcome s₀ s p fun b hb => Batch.forEach_outcome s₀
    (deterministic_of_mem_batches s hp b hb) (hproc.outcome s₀)).bind fun _ => Outcome.pure _

theorem anySatisfy_outcome {keep : α → ExceptT ε (StateM σ) Bool} (hk : Deterministic keep) :
    Outcome (s.anySatisfy (ε := ε) p keep)
      (s.anySatisfy (ε := ε) (p.settle s₀) (settle s₀ keep)) :=
  (run_outcome s₀ s p fun b hb => Batch.anySatisfy_outcome s₀
    (deterministic_of_mem_batches s hp b hb) (hk.outcome s₀)).bind fun _ => Outcome.pure _

theorem allSatisfy_outcome {keep : α → ExceptT ε (StateM σ) Bool} (hk : Deterministic keep) :
    Outcome (s.allSatisfy (ε := ε) p keep)
      (s.allSatisfy (ε := ε) (p.settle s₀) (settle s₀ keep)) :=
  (run_outcome s₀ s p fun b hb => Batch.allSatisfy_outcome s₀
    (deterministic_of_mem_batches s hp b hb) (hk.outcome s₀)).bind fun _ => Outcome.pure _

theorem detect_outcome {keep : α → ExceptT ε (StateM σ) Bool} (hk : Deterministic keep) :
    Outcome (s.detect (ε := ε) p keep) (s.detect (ε := ε) (p.settle s₀) (settle s₀ keep)) :=
  (run_outcome s₀ s p fun b hb => Batch.detect_outcome s₀
    (deterministic_of_mem_batches s hp b hb) (hk.outcome s₀)).bind fun _ => Outcome.pure _

theorem count_outcome {keep : α → ExceptT ε (StateM σ) Bool} (hk : Deterministic keep) :
    Outcome (s.count (ε := ε) p keep) (s.count (ε := ε) (p.settle s₀) (settle s₀ keep)) :=
  (run_outcome s₀ s p fun b hb => Batch.count_outcome s₀
    (deterministic_of_mem_batches s hp b hb) (hk.outcome s₀)).bind fun _ => Outcome.pure _

theorem select_outcome {keep : α → ExceptT ε (StateM σ) Bool} (hk : Deterministic keep) :
    Outcome (s.select (ε := ε) p keep) (s.select (ε := ε) (p.settle s₀) (settle s₀ keep)) :=
  (run_outcome s₀ s p fun b hb => Batch.select_outcome s₀
    (deterministic_of_mem_batches s hp b hb) hk).bind fun _ => Outcome.pure _

theorem collect_outcome {f : α → ExceptT ε (StateM σ) α} (hf : Deterministic f) :
    Outcome (s.collect (ε := ε) p f) (s.collect (ε := ε) (p.settle s₀) (settle s₀ f)) :=
  (run_outcome s₀ s p fun b hb => Batch.collect_outcome s₀
    (deterministic_of_mem_batches s hp b hb) hf).bind fun _ => Outcome.pure _

theorem distinct_outcome [BEq α] :
    Outcome (s.distinct (ε := ε) p) (s.distinct (ε := ε) (p.settle s₀)) :=
  (run_outcome s₀ s p fun b hb => (Batch.toList_outcome s₀
    (deterministic_of_mem_batches s hp b hb)).map _).bind fun _ => Outcome.pure _

theorem groupBy_outcome {κ : Type} [BEq κ] {key : α → ExceptT ε (StateM σ) κ}
    (hkey : Deterministic key) (order : Nat → List (κ × List α) → List (κ × List α)) :
    Outcome (s.groupBy (ε := ε) p key order)
      (s.groupBy (ε := ε) (p.settle s₀) (settle s₀ key) order) :=
  (run_outcome s₀ s p fun b hb => Batch.fold_outcome s₀ (deterministic_of_mem_batches s hp b hb)
    (fun _ y => (hkey.outcome s₀ y).bind fun _ => Outcome.pure _) []).bind
    fun _ => Outcome.pure _

/-- A fold whose identity, step and merge are deterministic; the settled identity is what the
identity answers from `s₀`. -/
theorem fold_outcome {init : ExceptT ε (StateM σ) β} {step : β → α → ExceptT ε (StateM σ) β}
    {merge : β → β → ExceptT ε (StateM σ) β} (hinit : Deterministic fun _ : Unit => init)
    (hstep : ∀ acc, Deterministic (step acc)) (hmerge : ∀ a, Deterministic (merge a)) :
    Outcome (s.fold (ε := ε) p init step merge)
      (s.fold (ε := ε) (p.settle s₀) (settle s₀ (fun _ : Unit => init) ())
        (fun acc => settle s₀ (step acc)) (fun a => settle s₀ (merge a))) := by
  refine (run_outcome s₀ s p fun b hb => (hinit.outcome s₀ ()).bind fun i => Batch.fold_outcome s₀
    (deterministic_of_mem_batches s hp b hb) (fun acc y => (hstep acc).outcome s₀ y) i).bind
    fun res => ?_
  rcases res with e | _ | ⟨r, rs⟩
  · exact Outcome.pure _
  · exact (hinit.outcome s₀ ()).map _
  · exact (Outcome.foldlM (fun a b => (hmerge a).outcome s₀ b) rs r).map _

end Operations

end Strategy

end ArrayFlow
