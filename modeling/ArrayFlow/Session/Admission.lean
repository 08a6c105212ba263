import ArrayFlow.Session.Request

/-!
# Which requests are run

A request is run only if it is **admissible**; otherwise it is refused as a whole, before any
work is done. Admission asks three things:

* every function is **well formed**: no division or remainder by zero, no periodic predicate
  of period zero (`ArrayFlow.Pred.wellFormed`);
* every size stays within the **limits** of a session: buffers of at most
  `ArrayFlow.Admission.maxCapacity` slots, pools of at most `ArrayFlow.Admission.maxThreads`
  threads, at most six stages in a pipeline, three in a batch session and two more added to
  its batch, positive batch sizes where a size is used to cut a source;
* a pipeline whose terminal runs under a strategy has one, and a **parallel** strategy is
  never combined with a periodic predicate (`ArrayFlow.Pred.periodic`) in a stage or in the
  predicate or function of the terminal, whose answers would depend on the order in which
  batches are run; the steps of a fold are not checked, and a parallel fold counts their calls
  batch after batch. A batch session names a batch that exists.
-/

namespace ArrayFlow

namespace Admission

/-- The largest buffer a request may ask for. -/
def maxCapacity : Nat := 1048576

/-- The largest pool a request may ask for. -/
def maxThreads : Nat := 16

/-- The most stages a pipeline run or a store session's pipeline may have. -/
def maxStages : Nat := 6

/-- The most stages the pipeline of a batch session may have. -/
def maxBatchStages : Nat := 3

/-- The most stages that may be added to the batch of a batch session. -/
def maxDerivations : Nat := 2

end Admission

mutual

/-- No division by zero and no period zero anywhere in the predicate. -/
def Pred.wellFormed : Pred → Bool
  | .const _ | .even | .odd | .compare _ _ => true
  | .residue d _ => d != 0
  | .not p => p.wellFormed
  | .all ps => Pred.allWellFormed ps
  | .any ps => Pred.allWellFormed ps
  | .after f p => f.wellFormed && p.wellFormed
  | .guard stop p => stop.wellFormed && p.wellFormed
  | .every k _ => k != 0

/-- Every predicate of the list is well formed. -/
def Pred.allWellFormed : List Pred → Bool
  | [] => true
  | p :: ps => p.wellFormed && Pred.allWellFormed ps

/-- No division by zero and no period zero anywhere in the function. -/
def Func.wellFormed : Func → Bool
  | .div n | .rem n => n != 0
  | .seq fs => Func.allWellFormed fs
  | .guard stop f => stop.wellFormed && f.wellFormed
  | _ => true

/-- Every function of the list is well formed. -/
def Func.allWellFormed : List Func → Bool
  | [] => true
  | f :: fs => f.wellFormed && Func.allWellFormed fs

end

mutual

/-- Whether a periodic predicate occurs anywhere in the predicate. -/
def Pred.periodic : Pred → Bool
  | .const _ | .even | .odd | .compare _ _ | .residue _ _ => false
  | .not p => p.periodic
  | .all ps => Pred.anyPeriodic ps
  | .any ps => Pred.anyPeriodic ps
  | .after f p => f.periodic || p.periodic
  | .guard stop p => stop.periodic || p.periodic
  | .every _ _ => true

/-- Whether a periodic predicate occurs in some predicate of the list. -/
def Pred.anyPeriodic : List Pred → Bool
  | [] => false
  | p :: ps => p.periodic || Pred.anyPeriodic ps

/-- Whether a periodic predicate occurs anywhere in the function. -/
def Func.periodic : Func → Bool
  | .seq fs => Func.anyPeriodic fs
  | .guard stop f => stop.periodic || f.periodic
  | _ => false

/-- Whether a periodic predicate occurs in some function of the list. -/
def Func.anyPeriodic : List Func → Bool
  | [] => false
  | f :: fs => f.periodic || Func.anyPeriodic fs

end

/-- No division by zero and no period zero anywhere in the spreading function. -/
def Spread.wellFormed : Spread → Bool
  | .replicate f | .upTo f => f.wellFormed
  | .list fs => fs.all Func.wellFormed
  | .empty => true
  | .lazy s => s.wellFormed

/-- No division by zero and no period zero anywhere in the folding step. -/
def FoldStep.wellFormed {k : AccKind} : FoldStep k → Bool
  | .guard stop step => stop.wellFormed && step.wellFormed
  | _ => true

/-- No division by zero and no period zero anywhere in the order. -/
def Order.wellFormed : Order → Bool
  | .asc | .desc => true
  | .key f | .keyDesc f => f.wellFormed
  | .lex os => allWellFormed os
where
  /-- Every order of the list is well formed. -/
  allWellFormed : List Order → Bool
    | [] => true
    | o :: os => o.wellFormed && allWellFormed os

/-- The functions of a stage are well formed. -/
def StageSpec.wellFormed : StageSpec → Bool
  | .filter p => p.wellFormed
  | .map f => f.wellFormed

/-- Whether a periodic predicate occurs in a stage. -/
def StageSpec.periodic : StageSpec → Bool
  | .filter p => p.periodic
  | .map f => f.periodic

/-- The functions of a terminal are well formed, and a size it cuts a source by is positive. -/
def Terminal.wellFormed : Terminal → Bool
  | .any p | .all p | .detect p | .count p | .select p => p.wellFormed
  | .collect f | .groupBy f => f.wellFormed
  | .fold spec => spec.step.wellFormed
  | .split size | .batchCount size => size != 0
  | _ => true

/-- Whether a periodic predicate occurs in the predicate or the function of a terminal; the
steps of a fold are not looked at. -/
def Terminal.periodic : Terminal → Bool
  | .any p | .all p | .detect p | .count p | .select p => p.periodic
  | .collect f | .groupBy f => f.periodic
  | _ => false

/-- A strategy asks for no more threads than a pool may have. -/
def StrategySpec.withinLimits : StrategySpec → Bool
  | .sequential => true
  | .parallel _ threads => threads.all (· ≤ Admission.maxThreads)

/-- Whether a strategy is parallel. -/
def StrategySpec.isParallel : StrategySpec → Bool
  | .sequential => false
  | .parallel _ _ => true

/-- **Admission of a pipeline**: its stages and terminal are well formed, it has at most
`Admission.maxStages` stages, and a terminal that runs under a strategy has one within the
limits, which is not parallel if a periodic predicate occurs in the stages or the terminal. -/
def PipelineRequest.admissible (r : PipelineRequest) : Bool :=
  r.stages.length ≤ Admission.maxStages && r.stages.all StageSpec.wellFormed &&
    r.terminal.wellFormed &&
    (!r.terminal.needsStrategy ||
      match r.strategy with
      | none => false
      | some s =>
        s.withinLimits &&
          !(s.isParallel && (r.stages.any StageSpec.periodic || r.terminal.periodic)))

/-- The functions of a derivation are well formed. -/
def Derivation.wellFormed : Derivation → Bool
  | .select p => p.wellFormed
  | .collect f => f.wellFormed

/-- The functions of a batch operation are well formed. -/
def BatchOp.wellFormed : BatchOp → Bool
  | .any p | .all p | .detect p | .count p => p.wellFormed
  | .fold spec => spec.step.wellFormed
  | _ => true

/-- **Admission of a batch session**: at most `Admission.maxBatchStages` stages and
`Admission.maxDerivations` derivations, all functions well formed, and, when the source is
split, a positive size and an index below the number of batches. -/
def BatchRequest.admissible (r : BatchRequest) : Bool :=
  r.stages.length ≤ Admission.maxBatchStages && r.derive.length ≤ Admission.maxDerivations &&
    r.stages.all StageSpec.wellFormed && r.derive.all Derivation.wellFormed &&
    r.ops.all BatchOp.wellFormed &&
    match r.split with
    | none => true
    | some size => size != 0 && r.index < (r.data.length + size - 1) / size

/-- The start of a store session asks for no buffer over the limit and its function is well
formed. -/
def StoreStart.admissible : StoreStart → Bool
  | .withCapacity c => c ≤ Admission.maxCapacity
  | .generate n f => n ≤ Admission.maxCapacity && f.wellFormed
  | _ => true

/-- A step of a store session asks for no buffer over the limit, its functions are well
formed, and a pipeline step is admissible as a pipeline. -/
def StoreStep.admissible : StoreStep → Bool
  | .ensureCapacity n => n ≤ Admission.maxCapacity
  | .compactKeeping p | .removeIf p | .select p | .reject p | .takeWhile p | .dropWhile p
  | .partition p | .partitionWhile p | .detect p | .detectIndex p | .anySatisfy p
  | .allSatisfy p | .noneSatisfy p | .count p => p.wellFormed
  | .tryCompactKeeping p fail => p.wellFormed && fail.wellFormed
  | .sortBy o | .toSortedBy o => o.wellFormed
  | .sortByKey f | .collect f | .sumOf f | .minByKey f | .maxByKey f | .groupBy f =>
    f.wellFormed
  | .flatCollect s => s.wellFormed
  | .collectIf p f => p.wellFormed && f.wellFormed
  | .injectInto spec => spec.step.wellFormed
  | .pipeline stages strategy terminal =>
    PipelineRequest.admissible ⟨[], stages, strategy, terminal⟩
  | _ => true

/-- **Admission of a request.** -/
def Request.admissible : Request → Bool
  | .store start steps => start.admissible && steps.all StoreStep.admissible
  | .pipeline r => r.admissible
  | .batch r => r.admissible
  | .createPool threads => threads ≤ Admission.maxThreads

end ArrayFlow
