import ArrayFlow.Proofs.Pipeline.Failure
import ArrayFlow.Closure.Eval

/-!
# Failures of parallel batches

A parallel run catches the failure of each batch and goes on with the next: every batch runs,
whatever the others do, and the state passes through all of them
(`ArrayFlow.Strategy.run_parallel_run`). Its answer is the failure of the lowest failing batch,
the first failure that batch met, or else the answers of all the batches
(`ArrayFlow.mapM_id_eq_error_iff`, `ArrayFlow.mapM_id_eq_ok_iff`).

Against the sequential strategy, over deterministic functions (`ArrayFlow.Deterministic`):

* the operations that walk every output – running a procedure, counting, selecting,
  collecting, dropping repeats, grouping, and a fold over a source with elements whose step
  fails on elements alone and whose merge never fails – **fail alike** (`ArrayFlow.FailsAlike`):
  the parallel strategy reports an execution failure exactly when the sequential one stops, and
  with its failure. A step that fails on the accumulator breaks this, and so does a failing
  identity over an empty source, which the parallel strategy runs outside every batch
  (`ArrayFlow.Strategy.fold_fails_unlike`); over an empty source both strategies answer what
  the identity answers (`ArrayFlow.Strategy.fold_of_source_nil`);
* the searches **search alike** (`ArrayFlow.SearchesAlike`): a failure that stops the
  sequential search is reported, and an answer of the parallel search is the sequential answer.
  The converse fails: a batch past the first hit may fail where the sequential search has
  already stopped.

Both are read off the outcomes (`ArrayFlow.Strategy.forEach_outcome` and its siblings), where
the question belongs to the monad of failures alone (`ArrayFlow.Strategy.forEach_fails_iff`,
`ArrayFlow.Strategy.parallel_search`). The folding steps of the language fail on elements alone
(`ArrayFlow.FoldStep.call_fails_on_elements`), and its merging steps never fail
(`ArrayFlow.MergeStep.call_outcome`).
-/

namespace ArrayFlow

/-! ### Every batch runs -/

section Caught

variable {ε β γ : Type} {n : Type → Type} [Monad n] [LawfulMonad n]

/-- A caught task never fails: it answers the outcome of the task. -/
theorem run_caught (x : ExceptT ε n β) :
    (tryCatchThe ε (Except.ok <$> x) fun e => pure (Except.error e)).run =
      Except.ok <$> x.run := by
  show (tryCatch (Except.ok <$> x) fun e => pure (Except.error e) :
    ExceptT ε n (Except ε β)).run = _
  rw [ExceptT.run_tryCatch, ExceptT.run_map, bind_map_left, map_eq_pure_bind]
  refine bind_congr fun r => ?_
  cases r <;> rfl

/-- Caught tasks run one after the other all run, whatever each of them answers. -/
theorem run_mapM_caught (task : γ → ExceptT ε n β) : ∀ bs : List γ,
    (bs.mapM fun b => tryCatchThe ε (Except.ok <$> task b) fun e => pure (Except.error e)).run =
      Except.ok <$> bs.mapM fun b => (task b).run
  | [] => by simp
  | b :: bs => by
    simp only [List.mapM_cons, ExceptT.run_bind, run_caught, bind_map_left, map_bind]
    refine bind_congr fun o => ?_
    simp [run_mapM_caught task bs]

/-- **Every batch runs**: the parallel strategy runs the task of each batch in turn, failing or
not, and answers the outcomes, in batch order, put together. -/
theorem Strategy.run_parallel_run {α : Type} (par : Parallel) (p : Pipeline (ExceptT ε n) α)
    (task : Batch (ExceptT ε n) α → ExceptT ε n β) :
    ((Strategy.parallel par).run (ε := ε) p task).run =
      (fun outs => .ok (outs.mapM id)) <$>
        (p.split par.batchSize par.batchSize_pos).mapM fun b => (task b).run := by
  simp only [Strategy.run, ExceptT.run_bind, run_mapM_caught, bind_map_left]
  rw [map_eq_pure_bind]
  rfl

end Caught

/-- **The lowest failure**: outcomes put together fail with the first outcome that is a
failure. -/
theorem mapM_id_eq_error_iff {ε β : Type} (e : ε) : ∀ outs : List (Except ε β),
    outs.mapM id = .error e ↔
      ∃ (oks : List β) (post : List (Except ε β)), outs = oks.map .ok ++ .error e :: post
  | [] => by simp
  | .error e' :: outs => by
    constructor
    · intro h
      exact ⟨[], outs, by simpa using h⟩
    · rintro ⟨oks, post, h⟩
      cases oks with
      | nil =>
        simp only [List.map_nil, List.nil_append, List.cons.injEq, Except.error.injEq] at h
        simp [h.1]
      | cons w oks => simp at h
  | .ok v :: outs => by
    rw [List.mapM_cons]
    simp only [id, except_ok_bind, except_pure, bind_ok_eq_error_iff, mapM_id_eq_error_iff e outs]
    constructor
    · rintro ⟨oks, post, h⟩
      exact ⟨v :: oks, post, by simp [h]⟩
    · rintro ⟨oks, post, h⟩
      cases oks with
      | nil => simp at h
      | cons w oks =>
        simp only [List.map_cons, List.cons_append, List.cons.injEq] at h
        exact ⟨oks, post, h.2⟩

/-- Outcomes put together answer when every one of them does. -/
theorem mapM_id_eq_ok_iff {ε β : Type} (outs : List (Except ε β)) (vs : List β) :
    outs.mapM id = .ok vs ↔ outs = vs.map .ok := by
  constructor
  · intro h
    induction outs generalizing vs with
    | nil =>
      simp only [List.mapM_nil, except_pure, Except.ok.injEq] at h
      simp [← h]
    | cons o outs ih =>
      rw [List.mapM_cons] at h
      rcases o with e | v
      · simp at h
      rcases hr : outs.mapM id with e | ws
      · simp [hr] at h
      simp only [id, hr, except_ok_bind, except_pure, Except.ok.injEq] at h
      simp [← h, ih ws hr]
  · rintro rfl
    induction vs with
    | nil => rfl
    | cons v vs ih => simp [List.mapM_cons, ih]

/-- **What a parallel run answers** from a state: the outcomes of the batches' tasks, run in turn
from that state, put together. -/
theorem Strategy.run_parallel_answer {ε σ α β : Type} (par : Parallel)
    (p : Pipeline (ExceptT ε (StateM σ)) α)
    (task : Batch (ExceptT ε (StateM σ)) α → ExceptT ε (StateM σ) β) (s : σ) :
    (((Strategy.parallel par).run (ε := ε) p task).run.run s).1 =
      .ok ((((p.split par.batchSize par.batchSize_pos).mapM fun b => (task b).run).run s).1.mapM
        id) := by
  rw [run_parallel_run]
  rfl

/-! ### Failing alike and searching alike -/

section Alike

variable {ε σ β : Type}

/-- **Failing alike**: from any states, the parallel run reports an execution failure exactly
when the sequential run stops, and with the failure that stops it. -/
def FailsAlike (par seq : ExceptT ε (StateM σ) (Except ε β)) : Prop :=
  ∀ s s' e, (par.run.run s).1 = .ok (.error e) ↔ (seq.run.run s').1 = .error e

/-- **Searching alike**: from any states, a failure that stops the sequential run is reported
by the parallel run, and an answer of the parallel run is the answer of the sequential one. -/
def SearchesAlike (par seq : ExceptT ε (StateM σ) (Except ε β)) : Prop :=
  ∀ s s', (∀ e, (seq.run.run s').1 = .error e → (par.run.run s).1 = .ok (.error e)) ∧
    ∀ v, (par.run.run s).1 = .ok (.ok v) → (seq.run.run s').1 = .ok (.ok v)

variable {par seq : ExceptT ε (StateM σ) (Except ε β)} {o o' : σ → Except ε (Except ε β)}

/-- Runs with outcomes fail alike when, settled from any state, their outcomes do. -/
theorem FailsAlike.of_outcomes (hpar : ∀ s₀, Outcome par (o s₀))
    (hseq : ∀ s₀, Outcome seq (o' s₀)) (h : ∀ s₀ e, o s₀ = .ok (.error e) ↔ o' s₀ = .error e) :
    FailsAlike par seq := by
  intro s s' e
  rw [hpar s s, hseq s s']
  exact h s e

/-- Runs with outcomes search alike when, settled from any state, their outcomes do. -/
theorem SearchesAlike.of_outcomes (hpar : ∀ s₀, Outcome par (o s₀))
    (hseq : ∀ s₀, Outcome seq (o' s₀))
    (h : ∀ s₀, (∀ e, o' s₀ = .error e → o s₀ = .ok (.error e)) ∧
      ∀ v, o s₀ = .ok (.ok v) → o' s₀ = .ok (.ok v)) :
    SearchesAlike par seq := by
  intro s s'
  rw [hpar s s, hseq s s']
  exact h s

end Alike

/-! ### Each operation -/

namespace Strategy

variable {ε σ α β : Type} (par : Parallel) {p : Pipeline (ExceptT ε (StateM σ)) α}
  (hp : ∀ st ∈ p.chain, st.Deterministic)
include hp

theorem forEach_fails_alike {proc : α → ExceptT ε (StateM σ) Unit} (hproc : Deterministic proc) :
    FailsAlike ((Strategy.parallel par).forEach (ε := ε) p proc)
      (Strategy.sequential.forEach (ε := ε) p proc) :=
  .of_outcomes (fun s₀ => forEach_outcome s₀ _ hp hproc) (fun s₀ => forEach_outcome s₀ _ hp hproc)
    fun s₀ e => forEach_fails_iff par (p.settle s₀) e (settle s₀ proc)

theorem count_fails_alike {keep : α → ExceptT ε (StateM σ) Bool} (hk : Deterministic keep) :
    FailsAlike ((Strategy.parallel par).count (ε := ε) p keep)
      (Strategy.sequential.count (ε := ε) p keep) :=
  .of_outcomes (fun s₀ => count_outcome s₀ _ hp hk) (fun s₀ => count_outcome s₀ _ hp hk)
    fun s₀ e => count_fails_iff par (p.settle s₀) e (settle s₀ keep)

theorem select_fails_alike {keep : α → ExceptT ε (StateM σ) Bool} (hk : Deterministic keep) :
    FailsAlike ((Strategy.parallel par).select (ε := ε) p keep)
      (Strategy.sequential.select (ε := ε) p keep) :=
  .of_outcomes (fun s₀ => select_outcome s₀ _ hp hk) (fun s₀ => select_outcome s₀ _ hp hk)
    fun s₀ e => select_fails_iff par (p.settle s₀) e (settle s₀ keep)

theorem collect_fails_alike {f : α → ExceptT ε (StateM σ) α} (hf : Deterministic f) :
    FailsAlike ((Strategy.parallel par).collect (ε := ε) p f)
      (Strategy.sequential.collect (ε := ε) p f) :=
  .of_outcomes (fun s₀ => collect_outcome s₀ _ hp hf) (fun s₀ => collect_outcome s₀ _ hp hf)
    fun s₀ e => collect_fails_iff par (p.settle s₀) e (settle s₀ f)

theorem distinct_fails_alike [BEq α] :
    FailsAlike ((Strategy.parallel par).distinct (ε := ε) p)
      (Strategy.sequential.distinct (ε := ε) p) :=
  .of_outcomes (fun s₀ => distinct_outcome s₀ _ hp) (fun s₀ => distinct_outcome s₀ _ hp)
    fun s₀ e => distinct_fails_iff par (p.settle s₀) e

theorem groupBy_fails_alike {κ : Type} [BEq κ] {key : α → ExceptT ε (StateM σ) κ}
    (hkey : Deterministic key) (order : Nat → List (κ × List α) → List (κ × List α)) :
    FailsAlike ((Strategy.parallel par).groupBy (ε := ε) p key order)
      (Strategy.sequential.groupBy (ε := ε) p key order) :=
  .of_outcomes (fun s₀ => groupBy_outcome s₀ _ hp hkey order)
    (fun s₀ => groupBy_outcome s₀ _ hp hkey order)
    fun s₀ e => groupBy_fails_iff par (p.settle s₀) e (settle s₀ key) order

/-- A fold over a source with elements fails alike when its step fails on elements alone, from
any state and whatever the accumulator, and its merge never fails. -/
theorem fold_fails_alike {init : ExceptT ε (StateM σ) β} {step : β → α → ExceptT ε (StateM σ) β}
    {merge : β → β → ExceptT ε (StateM σ) β} (hinit : Deterministic fun _ : Unit => init)
    (hstep : ∀ acc, Deterministic (step acc)) (hmerge : ∀ a, Deterministic (merge a))
    (helem : ∀ acc acc' y s e,
      ((step acc y).run.run s).1 = .error e ↔ ((step acc' y).run.run s).1 = .error e)
    (htotal : ∀ a b s e, ((merge a b).run.run s).1 ≠ .error e) (hne : p.source ≠ []) :
    FailsAlike ((Strategy.parallel par).fold (ε := ε) p init step merge)
      (Strategy.sequential.fold (ε := ε) p init step merge) :=
  .of_outcomes (fun s₀ => fold_outcome s₀ _ hp hinit hstep hmerge)
    (fun s₀ => fold_outcome s₀ _ hp hinit hstep hmerge)
    fun s₀ e => fold_fails_iff par (p.settle s₀) e _ _ _
      (fun acc acc' y e => helem acc acc' y s₀ e) (fun a b e => htotal a b s₀ e) hne

theorem anySatisfy_searches_alike {keep : α → ExceptT ε (StateM σ) Bool}
    (hk : Deterministic keep) :
    SearchesAlike ((Strategy.parallel par).anySatisfy (ε := ε) p keep)
      (Strategy.sequential.anySatisfy (ε := ε) p keep) :=
  .of_outcomes (fun s₀ => anySatisfy_outcome s₀ _ hp hk) (fun s₀ => anySatisfy_outcome s₀ _ hp hk)
    fun s₀ => anySatisfy_search par (p.settle s₀) (settle s₀ keep)

theorem allSatisfy_searches_alike {keep : α → ExceptT ε (StateM σ) Bool}
    (hk : Deterministic keep) :
    SearchesAlike ((Strategy.parallel par).allSatisfy (ε := ε) p keep)
      (Strategy.sequential.allSatisfy (ε := ε) p keep) :=
  .of_outcomes (fun s₀ => allSatisfy_outcome s₀ _ hp hk) (fun s₀ => allSatisfy_outcome s₀ _ hp hk)
    fun s₀ => allSatisfy_search par (p.settle s₀) (settle s₀ keep)

theorem detect_searches_alike {keep : α → ExceptT ε (StateM σ) Bool} (hk : Deterministic keep) :
    SearchesAlike ((Strategy.parallel par).detect (ε := ε) p keep)
      (Strategy.sequential.detect (ε := ε) p keep) :=
  .of_outcomes (fun s₀ => detect_outcome s₀ _ hp hk) (fun s₀ => detect_outcome s₀ _ hp hk)
    fun s₀ => detect_search par (p.settle s₀) (settle s₀ keep)

end Strategy

/-! ### The folds of the language -/

/-- **A folding step fails on elements alone**: from any state, whether it fails on a word, and
how, does not depend on the accumulator; only its guards can fail, and they read the word. -/
theorem FoldStep.eval_fails_on_elements {k : AccKind} (fs : FoldStep k) (acc acc' : k.carrier)
    (x : Int64) (t : Tally) (h : Halt) :
    ((fs.eval acc x).run.run t).1 = .error h ↔ ((fs.eval acc' x).run.run t).1 = .error h := by
  induction fs generalizing t with
  | guard stop step ih =>
    simp only [FoldStep.eval, ExceptT.run_bind, StateT.run_bind]
    rcases hs : (stop.eval x).run.run t with ⟨r, t'⟩
    rcases r with e | _ | _
    · exact Iff.rfl
    · exact ih acc acc' t'
    · exact Iff.rfl
  | _ => simp [FoldStep.eval]

theorem FoldStep.call_fails_on_elements {k : AccKind} (fs : FoldStep k) (acc acc' : k.carrier)
    (x : Int64) (t : Tally) (h : Halt) :
    ((fs.call acc x).run.run t).1 = .error h ↔ ((fs.call acc' x).run.run t).1 = .error h :=
  fs.eval_fails_on_elements acc acc' x _ h

/-- A merging step answers its merge from any state. -/
theorem MergeStep.call_outcome {k : AccKind} (ms : MergeStep k) (a b : k.carrier) :
    Outcome (ms.call a b) (pure (ms.eval a b)) :=
  fun _ => rfl

theorem MergeStep.call_deterministic {k : AccKind} (ms : MergeStep k) (a : k.carrier) :
    Deterministic (ms.call a) :=
  fun b t t' => (ms.call_outcome a b t).trans (ms.call_outcome a b t').symm

theorem MergeStep.call_ne_error {k : AccKind} (ms : MergeStep k) (a b : k.carrier) (t : Tally)
    (h : Halt) : ((ms.call a b).run.run t).1 ≠ .error h := by
  rw [ms.call_outcome a b t]
  simp

/-! ### Failures under the parallel strategy -/

namespace Strategy

variable {ε σ α : Type}

/-- **Failures under the parallel strategy.** Every batch runs, failing or not, and the
parallel strategy answers the failure of the lowest failing batch, the first failure that batch
met, or else the answers of all the batches. Against the sequential strategy, over
deterministic functions: the operations that walk every output fail alike, grouping in whatever
order each batch hands its groups on; a fold over a source with elements fails alike when its
step fails on elements alone and its merge never fails, and over an empty source both
strategies answer what the identity answers, run once; the searches search alike. -/
theorem parallel_reports_failures (par : Parallel) (p : Pipeline (ExceptT ε (StateM σ)) α)
    (hp : ∀ st ∈ p.chain, st.Deterministic) :
    (∀ {β : Type} (task : Batch (ExceptT ε (StateM σ)) α → ExceptT ε (StateM σ) β),
      ((Strategy.parallel par).run (ε := ε) p task).run =
          (fun outs => .ok (outs.mapM id)) <$>
            (p.split par.batchSize par.batchSize_pos).mapM (fun b => (task b).run) ∧
        ∀ s : σ,
          let outs :=
            (((p.split par.batchSize par.batchSize_pos).mapM fun b => (task b).run).run s).1
          (∀ e, (((Strategy.parallel par).run (ε := ε) p task).run.run s).1 = .ok (.error e) ↔
            ∃ (oks : List β) (post : List (Except ε β)),
              outs = oks.map .ok ++ .error e :: post) ∧
          ∀ vs, (((Strategy.parallel par).run (ε := ε) p task).run.run s).1 = .ok (.ok vs) ↔
            outs = vs.map .ok) ∧
    (∀ proc : α → ExceptT ε (StateM σ) Unit, Deterministic proc →
      FailsAlike ((Strategy.parallel par).forEach (ε := ε) p proc)
        (Strategy.sequential.forEach (ε := ε) p proc)) ∧
    (∀ keep : α → ExceptT ε (StateM σ) Bool, Deterministic keep →
      FailsAlike ((Strategy.parallel par).count (ε := ε) p keep)
          (Strategy.sequential.count (ε := ε) p keep) ∧
        FailsAlike ((Strategy.parallel par).select (ε := ε) p keep)
          (Strategy.sequential.select (ε := ε) p keep) ∧
        SearchesAlike ((Strategy.parallel par).anySatisfy (ε := ε) p keep)
          (Strategy.sequential.anySatisfy (ε := ε) p keep) ∧
        SearchesAlike ((Strategy.parallel par).allSatisfy (ε := ε) p keep)
          (Strategy.sequential.allSatisfy (ε := ε) p keep) ∧
        SearchesAlike ((Strategy.parallel par).detect (ε := ε) p keep)
          (Strategy.sequential.detect (ε := ε) p keep)) ∧
    (∀ f : α → ExceptT ε (StateM σ) α, Deterministic f →
      FailsAlike ((Strategy.parallel par).collect (ε := ε) p f)
        (Strategy.sequential.collect (ε := ε) p f)) ∧
    (∀ [BEq α], FailsAlike ((Strategy.parallel par).distinct (ε := ε) p)
      (Strategy.sequential.distinct (ε := ε) p)) ∧
    (∀ {κ : Type} [BEq κ] (key : α → ExceptT ε (StateM σ) κ)
      (order : Nat → List (κ × List α) → List (κ × List α)), Deterministic key →
      FailsAlike ((Strategy.parallel par).groupBy (ε := ε) p key order)
        (Strategy.sequential.groupBy (ε := ε) p key order)) ∧
    (∀ {β : Type} (init : ExceptT ε (StateM σ) β) (step : β → α → ExceptT ε (StateM σ) β)
      (merge : β → β → ExceptT ε (StateM σ) β),
      (Deterministic fun _ : Unit => init) → (∀ acc, Deterministic (step acc)) →
      (∀ a, Deterministic (merge a)) →
      (∀ acc acc' y s e,
        ((step acc y).run.run s).1 = .error e ↔ ((step acc' y).run.run s).1 = .error e) →
      (∀ a b s e, ((merge a b).run.run s).1 ≠ .error e) → p.source ≠ [] →
      FailsAlike ((Strategy.parallel par).fold (ε := ε) p init step merge)
        (Strategy.sequential.fold (ε := ε) p init step merge)) ∧
    (∀ {β : Type} (init : ExceptT ε (StateM σ) β) (step : β → α → ExceptT ε (StateM σ) β)
      (merge : β → β → ExceptT ε (StateM σ) β), p.source = [] →
      (Strategy.parallel par).fold (ε := ε) p init step merge = Except.ok <$> init ∧
        Strategy.sequential.fold (ε := ε) p init step merge = Except.ok <$> init) := by
  refine ⟨fun task => ⟨run_parallel_run par p task, fun s => ⟨fun e => ?_, fun vs => ?_⟩⟩,
    fun _ hproc => forEach_fails_alike par hp hproc,
    fun _ hk => ⟨count_fails_alike par hp hk, select_fails_alike par hp hk,
      anySatisfy_searches_alike par hp hk, allSatisfy_searches_alike par hp hk,
      detect_searches_alike par hp hk⟩,
    fun _ hf => collect_fails_alike par hp hf, distinct_fails_alike par hp,
    fun _ order hkey => groupBy_fails_alike par hp hkey order,
    fun _ _ _ hinit hstep hmerge helem htotal hne =>
      fold_fails_alike par hp hinit hstep hmerge helem htotal hne,
    fun init step merge hnil => ⟨fold_of_source_nil _ p hnil init step merge,
      fold_of_source_nil _ p hnil init step merge⟩⟩
  · rw [run_parallel_answer, Except.ok.injEq]
    exact mapM_id_eq_error_iff e _
  · rw [run_parallel_answer, Except.ok.injEq]
    exact mapM_id_eq_ok_iff _ vs

/-- A sum over words, stopped by the guard on words above two, fails alike in batches of one
and over the whole source. -/
theorem guarded_sum_fails_alike :
    FailsAlike ((Strategy.parallel ⟨1, by decide, ⟨1, by decide⟩⟩).fold (ε := Halt)
        (⟨[1, 5, 2], []⟩ : Pipeline Eval Int64) (pure (0 : Int64))
        (FoldStep.call (.guard (.compare .gt 2) .add)) (MergeStep.call .add))
      (Strategy.sequential.fold (ε := Halt) (⟨[1, 5, 2], []⟩ : Pipeline Eval Int64)
        (pure (0 : Int64)) (FoldStep.call (.guard (.compare .gt 2) .add))
        (MergeStep.call .add)) := by
  have hstep : ∀ acc : Int64, Deterministic (FoldStep.call (.guard (.compare .gt 2) .add) acc) := by
    intro acc x t t'
    by_cases hx : Relation.test .gt x 2 = true <;>
      simp [FoldStep.call, FoldStep.eval, Pred.eval, hx, Tally.bump] <;> rfl
  exact (parallel_reports_failures ⟨1, by decide, ⟨1, by decide⟩⟩ ⟨[1, 5, 2], []⟩
    (by simp)).2.2.2.2.2.2.1 (pure 0) _ _ (fun _ _ _ => rfl) hstep
    (MergeStep.call_deterministic .add)
    (FoldStep.guard (.compare .gt 2) .add).call_fails_on_elements (MergeStep.call_ne_error .add)
    (List.cons_ne_nil _ _)

/-- A running sum that fails once it would pass `cap`: whether it fails depends on the
accumulator, not on the element alone. -/
def cappedAdd (cap acc x : Nat) : ExceptT Unit (StateM Unit) Nat :=
  if cap < acc + x then throw () else pure (acc + x)

/-- **Failures of the accumulator or of the identity are not reported alike**, although every
function is deterministic and the merge never fails. Summing `5, 5, 5` with a step that fails
once the sum would pass `10` fails over the whole source, at the third element, while each batch
of one sums a single `5` and the parallel fold answers `15`. Over an empty source a failing
identity runs once, outside any batch, so the parallel fold fails outright instead of reporting
the failure of a batch. -/
theorem fold_fails_unlike :
    (∀ acc, Deterministic (cappedAdd 10 acc)) ∧
    (∀ a : Nat, Deterministic fun b : Nat => (pure (a + b) : ExceptT Unit (StateM Unit) Nat)) ∧
    (∀ (a b : Nat) s e, (((pure (a + b) : ExceptT Unit (StateM Unit) Nat)).run.run s).1 ≠
      .error e) ∧
    ¬ FailsAlike ((Strategy.parallel ⟨1, by decide, ⟨1, by decide⟩⟩).fold (ε := Unit)
        (⟨[5, 5, 5], []⟩ : Pipeline (ExceptT Unit (StateM Unit)) Nat) (pure 0) (cappedAdd 10)
        fun a b => pure (a + b))
      (Strategy.sequential.fold (ε := Unit)
        (⟨[5, 5, 5], []⟩ : Pipeline (ExceptT Unit (StateM Unit)) Nat) (pure 0) (cappedAdd 10)
        fun a b => pure (a + b)) ∧
    ¬ FailsAlike ((Strategy.parallel ⟨1, by decide, ⟨1, by decide⟩⟩).fold (ε := Unit)
        (⟨[], []⟩ : Pipeline (ExceptT Unit (StateM Unit)) Nat) (throw ()) (cappedAdd 10)
        fun a b => pure (a + b))
      (Strategy.sequential.fold (ε := Unit)
        (⟨[], []⟩ : Pipeline (ExceptT Unit (StateM Unit)) Nat) (throw ()) (cappedAdd 10)
        fun a b => pure (a + b)) := by
  refine ⟨fun _ _ _ _ => rfl, fun _ _ _ _ => rfl, fun _ _ _ _ => by simp, ?_, ?_⟩
  · -- the sequential fold stops at the third `5`; the parallel one answers `15`
    intro h
    exact absurd ((h () () ()).mpr rfl) (by decide +kernel)
  · -- the sequential fold fails in its one batch; the parallel one has no batch to catch it
    intro h
    exact absurd ((h () () ()).mpr rfl) (by decide +kernel)

end Strategy

end ArrayFlow
