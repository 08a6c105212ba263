import ArrayFlow.Pipeline.Basic
import ArrayFlow.Store.Query

/-!
# Strategies: running a terminal operation over batches

A **strategy** decides how a pipeline is cut into batches for a terminal operation. The
*sequential* strategy runs the operation on one batch, the whole source, and lets a failure of
the operation's functions stop the run. The *parallel* strategy cuts the source into batches of
a fixed size, runs the operation on **every** batch, and reports the failure of the lowest
failing batch, if any, as an *execution failure*, discarding all partial results.

Every terminal operation is a task per batch plus a combination of the per-batch results in
ascending batch order (`ArrayFlow.Strategy.run`):

* `any`/`all` – disjunction and conjunction; `detect` – the first batch's find; `count` –
  the sum;
* `select`/`collect` – the concatenation, in a buffer reserved for all of it
  (`ArrayFlow.Strategy.concatenate`);
* `fold` – each batch folds from an identity of its own, produced inside the batch's task,
  and the batch results are merged left to right; with no batches at all the identity is
  produced once more, outside every batch;
* `distinct` – each batch drops its own repeats, and the combination drops the repeats across
  batches;
* `groupBy` – each batch groups its outputs into a map from keys, and each final group
  receives the parts of its key batch by batch. A map is walked in no fixed order, so the order
  in which each batch's groups are met is a parameter (`ArrayFlow.Strategy.mergeGroups`).

A parallel strategy is built from a configuration (`ArrayFlow.Parallel.configure`) that may be
refused, and runs on a pool of at least one thread (`ArrayFlow.Pool.create`). Failures are
caught through `MonadExceptOf ε m`.
-/

namespace ArrayFlow

/-- **A pool** of worker threads: at least one. -/
structure Pool where
  /-- The number of threads. -/
  threads : Nat
  /-- There is at least one. -/
  threads_pos : 0 < threads

/-- A pool of `n` threads; none at all is refused. -/
def Pool.create (n : Nat) : Except Misuse Pool :=
  if h : 0 < n then .ok ⟨n, h⟩ else .error .zeroConcurrency

/-- **The configuration** of a parallel strategy, as given. -/
structure Config where
  /-- The number of source elements per batch. -/
  batchSize : Nat
  /-- The pool the batches run on. -/
  pool : Option Pool

/-- **A parallel strategy**: a positive batch size and a pool. -/
structure Parallel where
  /-- The number of source elements per batch. -/
  batchSize : Nat
  /-- Batches are not empty by design. -/
  batchSize_pos : 0 < batchSize
  /-- The pool the batches run on. -/
  pool : Pool

/-- The parallel strategy of a configuration: a batch size of zero is refused first, then a
missing pool. -/
def Parallel.configure (c : Config) : Except Misuse Parallel :=
  if h : 0 < c.batchSize then
    match c.pool with
    | some p => .ok ⟨c.batchSize, h, p⟩
    | none => .error .missingPool
  else .error .zeroBatchSize

/-- **A strategy** for running terminal operations. -/
inductive Strategy where
  /-- One batch, the whole source; failures stop the run. -/
  | sequential
  /-- Batches of a fixed size, all of them run; a failure becomes an execution failure. -/
  | parallel (p : Parallel)

/-- Concatenates per-batch outputs into one store whose buffer is reserved for all of them:
each part is appended as a feed that promises its length. -/
def Strategy.concatenate {α : Type} (parts : List (List α)) : Store α :=
  parts.foldl (fun acc part => acc.appendAll (.exact part))
    (Store.withCapacity ((parts.map List.length).foldl (· + ·) 0))

/-- Appends `y` to the group of key `k` in a list of groups kept in the order keys are first
met. -/
def Strategy.gather {α κ : Type} [BEq κ] : List (κ × List α) → κ → α → List (κ × List α)
  | [], k, y => [(k, [y])]
  | (k', ys) :: rest, k, y =>
    if k' == k then (k', ys ++ [y]) :: rest else (k', ys) :: gather rest k y

/-- Appends a batch's part of the group of key `k` to the final groups, opening the group,
empty, if it is new. -/
def Strategy.absorb {α κ : Type} [BEq κ] :
    List (κ × Store α) → κ → List α → List (κ × Store α)
  | [], k, ys => [(k, Store.empty.appendAll (.exact ys))]
  | (k', g) :: rest, k, ys =>
    if k' == k then (k', g.appendAll (.exact ys)) :: rest else (k', g) :: absorb rest k ys

/-- **Merges the batches' groups** into the final groups, batch after batch, counting batches
from `i`: the groups of each batch are met in the order `order` gives them for that batch – the
order in which its map of groups happens to be walked – and each part is appended to its key's
final group, a new key opening a group, empty, at the end. -/
def Strategy.mergeGroups {α κ : Type} [BEq κ]
    (order : Nat → List (κ × List α) → List (κ × List α)) :
    Nat → List (κ × Store α) → List (List (κ × List α)) → List (κ × Store α)
  | _, acc, [] => acc
  | i, acc, groups :: rest =>
    mergeGroups order (i + 1) ((order i groups).foldl (fun acc g => absorb acc g.1 g.2) acc) rest

namespace Strategy

variable {m : Type → Type} {α β : Type}

/-- The batches a strategy cuts a pipeline into. -/
def batches (s : Strategy) (p : Pipeline m α) : List (Batch m α) :=
  match s with
  | .sequential => [p.whole]
  | .parallel par => p.split par.batchSize par.batchSize_pos

variable {ε : Type} [Monad m] [MonadExceptOf ε m]

/-- **Runs a task on every batch** and returns the results in ascending batch order. Under the
parallel strategy a failing batch does not stop the others, and the failure of the lowest
failing batch is the answer; under the sequential strategy a failure stops the run. -/
def run (s : Strategy) (p : Pipeline m α) (task : Batch m α → m β) : m (Except ε (List β)) :=
  match s with
  | .sequential => do pure (.ok [← task p.whole])
  | .parallel par => do
    let outcomes ← (p.split par.batchSize par.batchSize_pos).mapM fun b =>
      tryCatchThe ε (Except.ok <$> task b) fun e => pure (Except.error e)
    pure (outcomes.mapM id)

/-- Runs a procedure on every output. -/
def forEach (s : Strategy) (p : Pipeline m α) (proc : α → m Unit) : m (Except ε Unit) := do
  pure ((← s.run p (·.forEach proc)).map fun _ => ())

/-- Whether some output is accepted. -/
def anySatisfy (s : Strategy) (p : Pipeline m α) (keep : α → m Bool) : m (Except ε Bool) := do
  pure ((← s.run p (·.anySatisfy keep)).map (·.any id))

/-- Whether every output is accepted. -/
def allSatisfy (s : Strategy) (p : Pipeline m α) (keep : α → m Bool) : m (Except ε Bool) := do
  pure ((← s.run p (·.allSatisfy keep)).map (·.all id))

/-- The first accepted output, from the lowest batch that has one. -/
def detect (s : Strategy) (p : Pipeline m α) (keep : α → m Bool) :
    m (Except ε (Option α)) := do
  pure ((← s.run p (·.detect keep)).map (·.findSome? id))

/-- The number of accepted outputs. -/
def count (s : Strategy) (p : Pipeline m α) (keep : α → m Bool) : m (Except ε Nat) := do
  pure ((← s.run p (·.count keep)).map fun ns => ns.foldl (· + ·) 0)

/-- The accepted outputs, in order. -/
def select (s : Strategy) (p : Pipeline m α) (keep : α → m Bool) :
    m (Except ε (Store α)) := do
  pure ((← s.run p fun b => (b.select keep).toList).map concatenate)

/-- The images of the outputs, in order. -/
def collect (s : Strategy) (p : Pipeline m α) (f : α → m α) : m (Except ε (Store α)) := do
  pure ((← s.run p fun b => (b.collect f).toList).map concatenate)

/-- **Folds** each batch with `step` from an identity that `init` produces inside the batch's
task, then merges the batch results left to right with `merge`, outside every task; with no
batches the answer is an identity produced by `init` outside every task. -/
def fold (s : Strategy) (p : Pipeline m α) (init : m β) (step : β → α → m β)
    (merge : β → β → m β) : m (Except ε β) := do
  match ← s.run p fun b => do b.fold (← init) step with
  | .error e => pure (.error e)
  | .ok [] => .ok <$> init
  | .ok (r :: rs) => .ok <$> rs.foldlM merge r

/-- The outputs without repeats, first occurrences in order: each batch drops its own repeats,
then the repeats across batches are dropped while appending to an empty store. -/
def distinct [BEq α] (s : Strategy) (p : Pipeline m α) : m (Except ε (Store α)) := do
  let parts ← s.run p fun b => Store.firstOccurrences [] <$> b.toList
  pure (parts.map fun ps => Store.ofAppends (Store.firstOccurrences [] ps.flatten))

/-- **Groups** the outputs by key: each batch groups its own outputs, and each final group,
opened empty, receives its key's part of every batch in batch order. The groups of batch `i`
are met in the order `order i` gives them. -/
def groupBy {κ : Type} [BEq κ] (s : Strategy) (p : Pipeline m α) (key : α → m κ)
    (order : Nat → List (κ × List α) → List (κ × List α)) :
    m (Except ε (List (κ × Store α))) := do
  let parts ← s.run p fun b => b.fold [] fun groups y => do pure (gather groups (← key y) y)
  pure (parts.map (mergeGroups order 0 []))

end Strategy

end ArrayFlow
