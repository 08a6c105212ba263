import ArrayFlow.Closure.Basic
import ArrayFlow.Store.Basic

/-!
# Requests

A **request** asks the library for one piece of work, with every function it needs written in
the language of `ArrayFlow.Closure.Basic`:

* a **store session** (`ArrayFlow.Request.store`): a way to build a store of words
  (`ArrayFlow.StoreStart`) and a script of steps to run on it, one after the other
  (`ArrayFlow.StoreStep`);
* a **pipeline run** (`ArrayFlow.PipelineRequest`): a source, a chain of stages, and a
  terminal operation (`ArrayFlow.Terminal`), run under a strategy if the terminal needs one;
* a **batch session** (`ArrayFlow.BatchRequest`): one batch of a pipeline, seen through up to
  two further stages, and a script of operations on it (`ArrayFlow.BatchOp`);
* the creation of a **pool** of threads.

Whether a request may be run at all is decided in `ArrayFlow.Session.Admission`.
-/

namespace ArrayFlow

/-- **A stage** of a requested pipeline. -/
inductive StageSpec where
  | filter (p : Pred)
  | map (f : Func)

/-- **A requested strategy**: sequential, or parallel with a batch size and, perhaps, the
number of threads of a pool to create for it. -/
inductive StrategySpec where
  | sequential
  | parallel (batchSize : Nat) (threads : Option Nat)

/-- **A fold with a merge**: an accumulator kind, the identity, the step for each element and
the step that merges two accumulators. -/
structure FoldSpec where
  kind : AccKind
  init : kind.carrier
  step : FoldStep kind
  merge : MergeStep kind

/-- **A fold**: an accumulator kind, the initial value and the step for each element. -/
structure InjectSpec where
  kind : AccKind
  init : kind.carrier
  step : FoldStep kind

/-- **A terminal operation** of a pipeline. -/
inductive Terminal where
  /-- The outputs, handed to a procedure. -/
  | forEach
  | any (p : Pred)
  | all (p : Pred)
  | detect (p : Pred)
  | count (p : Pred)
  | select (p : Pred)
  | collect (f : Func)
  | fold (spec : FoldSpec)
  | distinct
  | groupBy (f : Func)
  /-- The bounds of the batches the strategy runs. -/
  | batches
  /-- The shapes of the links of the pipeline. -/
  | kinds
  /-- The one-line description of the pipeline. -/
  | describe
  | sourceLength
  /-- The bounds and lengths of the batches of a size. -/
  | split (size : Nat)
  | batchCount (size : Nat)
  /-- The description of the batch covering the whole source. -/
  | whole

/-- Whether a terminal runs under a strategy; the others only describe the pipeline. -/
def Terminal.needsStrategy : Terminal → Bool
  | .kinds | .describe | .sourceLength | .split _ | .batchCount _ | .whole => false
  | _ => true

/-- **How a store session begins.** -/
inductive StoreStart where
  /-- The empty store, with no buffer. -/
  | empty
  /-- The empty store with a buffer of `c` slots. -/
  | withCapacity (c : Nat)
  /-- The words, in a buffer of exactly their number. -/
  | ofList (xs : List Int64)
  /-- The words of a feed appended to the empty store. -/
  | ofFeed (f : Feed Int64)
  /-- `n` words, the `k`-th the image of `k`, in a buffer of `n` slots. -/
  | generate (n : Nat) (f : Func)

/-- **A step** of a store session. -/
inductive StoreStep where
  | get (i : Nat)
  | set (i : Nat) (v : Int64)
  /-- A read that halts the session when the index is out of bounds. -/
  | index (i : Nat)
  | first
  | last
  | append (v : Int64)
  | appendAll (f : Feed Int64)
  | insertAt (i : Nat) (v : Int64)
  | insertRange (i : Nat) (vs : List Int64)
  | removeAt (i : Nat)
  | removeItem (v : Int64)
  | compactKeeping (p : Pred)
  | removeIf (p : Pred)
  /-- Compaction by `p`, refused at the first word that `fail` accepts. -/
  | tryCompactKeeping (p fail : Pred)
  | ensureCapacity (n : Nat)
  | trim
  | trimIf (threshold : Float)
  | clear
  | length
  | isEmpty
  | capacity
  | reallocations
  | indexOf (v : Int64)
  | lastIndexOf (v : Int64)
  | contains (v : Int64)
  | sort
  | sortBy (o : Order)
  | sortByKey (f : Func)
  | reverse
  | slice (lo hi : Nat)
  | indexed
  | sectionCount (size : Nat)
  | section (k n : Nat)
  /-- The store replaced by a copy of itself. -/
  | copy
  | sameItems (vs : List Int64)
  | render
  | select (p : Pred)
  | reject (p : Pred)
  | takeWhile (p : Pred)
  | dropWhile (p : Pred)
  | partition (p : Pred)
  | partitionWhile (p : Pred)
  | collect (f : Func)
  | flatCollect (s : Spread)
  | collectIf (p : Pred) (f : Func)
  | detect (p : Pred)
  | detectIndex (p : Pred)
  | anySatisfy (p : Pred)
  | allSatisfy (p : Pred)
  | noneSatisfy (p : Pred)
  | count (p : Pred)
  | injectInto (spec : InjectSpec)
  | sumOf (f : Func)
  | minByKey (f : Func)
  | maxByKey (f : Func)
  | distinct
  | toSorted
  | toSortedBy (o : Order)
  | groupBy (f : Func)
  | chunk (size : Nat)
  /-- A pipeline over the store's words. -/
  | pipeline (stages : List StageSpec) (strategy : Option StrategySpec) (terminal : Terminal)

/-- **A pipeline run.** -/
structure PipelineRequest where
  data : List Int64
  stages : List StageSpec
  strategy : Option StrategySpec
  terminal : Terminal

/-- A stage added to a batch. -/
inductive Derivation where
  | select (p : Pred)
  | collect (f : Func)

/-- **An operation** on a batch. -/
inductive BatchOp where
  | start
  | stop
  | length
  | isEmpty
  | describe
  | toList
  | forEach
  | any (p : Pred)
  | all (p : Pred)
  | detect (p : Pred)
  | count (p : Pred)
  | fold (spec : InjectSpec)

/-- **A batch session**: the batch `index` of the split of a pipeline into batches of `split`
elements, or the whole source when no size is given. -/
structure BatchRequest where
  data : List Int64
  stages : List StageSpec
  split : Option Nat
  index : Nat
  derive : List Derivation
  ops : List BatchOp

/-- **A request.** -/
inductive Request where
  | store (start : StoreStart) (steps : List StoreStep)
  | pipeline (r : PipelineRequest)
  | batch (r : BatchRequest)
  | createPool (threads : Nat)

end ArrayFlow
