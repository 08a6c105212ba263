import ArrayFlow.Session.Request
import ArrayFlow.Session.Reply
import ArrayFlow.Pipeline.Strategy

/-!
# Running pipelines and batch sessions

A requested pipeline becomes a `ArrayFlow.Pipeline` over words whose stages count their calls,
stage by stage, in the tally (`ArrayFlow.StageSpec.pipeline`). Its terminal then either
describes the pipeline, or runs under the requested strategy with its functions counted as
calls of the operation (`ArrayFlow.runPipeline`):

* a strategy whose configuration is refused gives a `ArrayFlow.Failure.refused`, reported
  only when the terminal runs;
* a halt in a parallel batch gives a `ArrayFlow.Failure.execution`; under the sequential
  strategy the halt ends the run;
* the words handed to the procedure of `forEach` come back in the order they were handed over
  under the sequential strategy, and in ascending order under the parallel one, whose batches
  may hand them over in any interleaving;
* groups come back in ascending order of their keys.

A batch session (`ArrayFlow.BatchRequest.transcript`) runs its operations one after the
other on one batch, reporting each one's calls, and stops at the first halt; the calls of the
pipeline's stages are totalled over the whole session.
-/

namespace ArrayFlow

/-- The stage at position `k` of a requested pipeline, counting its calls as stage `k`. -/
def StageSpec.toStage (k : Nat) : StageSpec → Stage Eval Int64
  | .filter p => .filter (p.callAt k)
  | .map f => .map (f.callAt k)

/-- **The pipeline** of a source and requested stages. -/
def StageSpec.pipeline (data : List Int64) (stages : List StageSpec) : Pipeline Eval Int64 :=
  ⟨data, stages.zipIdx.map fun p => p.1.toStage p.2⟩

/-- **The strategy** of a request: a pool is created first, if threads are asked for; then the
parallel configuration is checked. -/
def StrategySpec.build : StrategySpec → Except Misuse Strategy
  | .sequential => .ok .sequential
  | .parallel batchSize threads => do
    let pool ← match threads with
      | none => pure none
      | some n => some <$> Pool.create n
    let par ← Parallel.configure ⟨batchSize, pool⟩
    pure (.parallel par)

/-- Whether a strategy runs batches in parallel. -/
def Strategy.isParallel : Strategy → Bool
  | .sequential => false
  | .parallel _ => true

/-- Groups in ascending order of their keys. -/
def Reply.sortedGroups (gs : List (Int64 × Store Int64)) : Reply :=
  .groups (gs.mergeSort fun a b => decide (a.1 ≤ b.1))

/-- The words handed to procedures since the tally's record was last cleared, in the order
they were handed over. -/
def Tally.visitedInOrder : Eval (List Int64) := do pure (← get).visited.reverse

/-- Clears the record of words handed to procedures. -/
def Tally.clearVisited : Eval Unit := modify fun t => { t with visited := [] }

/-- The procedure of `forEach`: one counted call that records its word. -/
def Tally.record (x : Int64) : Eval Unit := do Tally.bump; Tally.visit x

/-- **Runs a terminal under a strategy**: its reply, or the halt of a failed parallel batch. -/
def Terminal.runUnder (s : Strategy) (p : Pipeline Eval Int64) :
    Terminal → Eval (Except Halt Reply)
  | .forEach => do
    Tally.clearVisited
    match ← s.forEach p Tally.record with
    | .error h => pure (.error h)
    | .ok () =>
      let vs ← Tally.visitedInOrder
      pure (.ok (.words (if s.isParallel then vs.mergeSort fun a b => decide (a ≤ b) else vs)))
  | .any q => do pure ((← s.anySatisfy p q.call).map .bool)
  | .all q => do pure ((← s.allSatisfy p q.call).map .bool)
  | .detect q => do pure ((← s.detect p q.call).map Reply.ofWord?)
  | .count q => do pure ((← s.count p q.call).map .nat)
  | .select q => do pure ((← s.select p q.call).map .store)
  | .collect f => do pure ((← s.collect p f.call).map .store)
  | .fold spec => do
    pure ((← s.fold p (pure spec.init) spec.step.call spec.merge.call).map
      (Reply.ofAcc spec.kind))
  | .distinct => do pure ((← s.distinct p).map .store)
  | .groupBy f => do
    pure ((← s.groupBy p f.call fun _ groups => groups).map Reply.sortedGroups)
  | .batches => do pure ((← s.run p fun b => pure (b.start, b.stop)).map .ranges)
  | _ => pure (.ok .unit)

/-- **The description** a terminal that needs no strategy gives of a pipeline. -/
def Terminal.describeOf (p : Pipeline Eval Int64) : Terminal → Reply
  | .kinds => .kinds p.kinds
  | .describe => .text p.describe
  | .sourceLength => .nat p.sourceLength
  | .split size =>
    if h : 0 < size then .spans ((p.split size h).map fun b => (b.start, b.stop, b.length))
    else .spans []
  | .batchCount size => .nat (p.batchCount size)
  | .whole => .text p.whole.describe
  | _ => .unit

/-- **Runs a requested pipeline**: the tally's calls and stage calls start from zero; a
terminal that needs a strategy runs under the requested one (admission makes sure there is
one), and the others describe the pipeline. -/
def runPipeline (data : List Int64) (stages : List StageSpec) (strategy : Option StrategySpec)
    (terminal : Terminal) : Eval (Except Failure Reply) := do
  modify fun t => { t with calls := 0, stageCalls := stages.map fun _ => 0 }
  let p := StageSpec.pipeline data stages
  if terminal.needsStrategy then
    match (strategy.getD .sequential).build with
    | .error m => pure (.error (.refused m))
    | .ok s =>
      match ← terminal.runUnder s p with
      | .error h => pure (.error (.execution h))
      | .ok r => pure (.ok r)
  else pure (.ok (terminal.describeOf p))

/-- **The answer to a pipeline run**: the reply or failure, the calls of the terminal's
functions, and the calls of each stage. -/
structure PipelineAnswer where
  result : Except Failure Reply
  calls : Nat
  stageCalls : List Nat

/-- Runs a pipeline request from a fresh tally; a halt under the sequential strategy ends the
run. -/
def PipelineRequest.answer (r : PipelineRequest) : Except Halt PipelineAnswer :=
  match ((runPipeline r.data r.stages r.strategy r.terminal).run).run {} with
  | (.error h, _) => .error h
  | (.ok result, t) => .ok ⟨result, t.calls, t.stageCalls⟩

/-! ### Batch sessions -/

/-- The batch a derivation adds a stage to, its calls counted as calls of the operation. -/
def Derivation.apply (b : Batch Eval Int64) : Derivation → Batch Eval Int64
  | .select p => b.select p.call
  | .collect f => b.collect f.call

/-- **Runs an operation on a batch.** -/
def BatchOp.run (b : Batch Eval Int64) : BatchOp → Eval Reply
  | .start => pure (.nat b.start)
  | .stop => pure (.nat b.stop)
  | .length => pure (.nat b.length)
  | .isEmpty => pure (.bool b.isEmpty)
  | .describe => pure (.text b.describe)
  | .toList => do pure (.words (← b.toList))
  | .forEach => do
    Tally.clearVisited
    b.forEach Tally.record
    pure (.words (← Tally.visitedInOrder))
  | .any p => do pure (.bool (← b.anySatisfy p.call))
  | .all p => do pure (.bool (← b.allSatisfy p.call))
  | .detect p => do pure (Reply.ofWord? (← b.detect p.call))
  | .count p => do pure (.nat (← b.count p.call))
  | .fold spec => do pure (Reply.ofAcc spec.kind (← b.fold spec.init spec.step.call))

/-- What one operation of a batch session gave. -/
inductive BatchOutcome where
  /-- A reply, and the calls the operation made. -/
  | done (result : Reply) (calls : Nat)
  /-- The operation halted; the session ends here. -/
  | halted (cause : Halt)

/-- **The transcript of a batch session**: what each operation gave, and the calls of each
stage of the pipeline over the whole session. -/
structure BatchTranscript where
  steps : List BatchOutcome
  stageCalls : List Nat

/-- Runs the operations one after the other, each with its calls counted from zero, up to the
first halt; returns what they gave and the final tally. -/
def BatchOp.runAll (b : Batch Eval Int64) : List BatchOp → Tally → List BatchOutcome × Tally
  | [], t => ([], t)
  | op :: ops, t =>
    match ((op.run b).run).run { t with calls := 0 } with
    | (.error h, t') => ([.halted h], t')
    | (.ok r, t') =>
      let (rest, t'') := BatchOp.runAll b ops t'
      (.done r t'.calls :: rest, t'')

/-- The batch a batch session works on: the batch `index` of the split, or the whole source,
seen through the derivations. -/
def BatchRequest.batch (r : BatchRequest) : Batch Eval Int64 :=
  let p := StageSpec.pipeline r.data r.stages
  let b := match r.split with
    | none => p.whole
    | some size => if h : 0 < size then ((p.split size h)[r.index]?).getD p.whole else p.whole
  r.derive.foldl Derivation.apply b

/-- **Runs a batch session.** -/
def BatchRequest.transcript (r : BatchRequest) : BatchTranscript :=
  let (steps, t) := BatchOp.runAll r.batch r.ops { stageCalls := r.stages.map fun _ => 0 }
  ⟨steps, t.stageCalls⟩

end ArrayFlow
