import ArrayFlow.Session.Pipeline
import ArrayFlow.Store.Lookup

/-!
# Store sessions

A store session builds a store of words (`ArrayFlow.StoreStart.build`) and runs a script of
steps on it (`ArrayFlow.StoreStep.run`), each step on the store the previous one left. The
transcript (`ArrayFlow.StoreStart.session`) records, for each step, its reply with the number
of calls it made and the store after it, or its failure with the store, which a failure leaves
unchanged. A halt ends the script: the steps after it are not run. A halt while the store is
being built ends the session before its first step.

Functions given to a step are counted as calls of the step (`ArrayFlow.Pred.call`), except
the keys and orders by which a store is sorted, which are evaluated without being counted, as
often and in the order the stable sort compares (`ArrayFlow.Sorting.stableM`).
-/

namespace ArrayFlow

/-- **Builds the store** a session begins with; a generated store asks its function about
`0, 1, …, n - 1` in order. -/
def StoreStart.build : StoreStart → Eval (Store Int64)
  | .empty => pure .empty
  | .withCapacity c => pure (.withCapacity c)
  | .ofList xs => pure (.ofList xs)
  | .ofFeed f => pure (.ofFeed f)
  | .generate n f => do
    let ys ← (List.range n).mapM fun k => f.call (Int64.ofNat k)
    pure ((Store.withCapacity n).appendEach ys)

/-- A step's reply with the store it leaves. -/
abbrev StepResult := Except Failure (Reply × Store Int64)

/-- A reply, and the store as it is. -/
def StepResult.reply (r : Reply) (s : Store Int64) : Eval StepResult := pure (.ok (r, s))

/-- A reply read from a store, or the store's refusal. -/
def StepResult.read {α : Type} (s : Store Int64) (r : Except Store.Error α) (f : α → Reply) :
    Eval StepResult :=
  pure (match r with
    | .ok a => .ok (f a, s)
    | .error e => .error (.store e))

/-- A new store and a reply, or the store's refusal. -/
def StepResult.change {α : Type} (r : Except Store.Error α) (f : α → Reply × Store Int64) :
    Eval StepResult :=
  pure (match r with
    | .ok a => .ok (f a)
    | .error e => .error (.store e))

/-- The order of words, least first. -/
def Store.wordLe (a b : Int64) : Bool := decide (a ≤ b)

/-- **Runs one step** on a store: its reply and the store it leaves, or its failure. -/
def StoreStep.run (s : Store Int64) : StoreStep → Eval StepResult
  | .get i => StepResult.read s (s.get i) .word
  | .set i v => StepResult.change (s.set i v) fun (old, t) => (.word old, t)
  | .index i =>
    match s.items[i]? with
    | some x => StepResult.reply (.word x) s
    | none => throw (.indexOutOfBounds s.items.length i)
  | .first => StepResult.reply (Reply.ofWord? s.first?) s
  | .last => StepResult.reply (Reply.ofWord? s.last?) s
  | .append v => StepResult.reply .unit (s.append v)
  | .appendAll f => StepResult.reply .unit (s.appendAll f)
  | .insertAt i v => StepResult.change (s.insertAt i v) fun t => (.unit, t)
  | .insertRange i vs => StepResult.change (s.insertRange i vs) fun t => (.unit, t)
  | .removeAt i => StepResult.change (s.removeAt i) fun (x, t) => (.word x, t)
  | .removeItem v =>
    let (found, t) := s.removeItem v
    StepResult.reply (.bool found) t
  | .compactKeeping p => do StepResult.reply .unit (← s.compactKeepingM p.call)
  | .removeIf p => do StepResult.reply .unit (← s.removeIfM p.call)
  | .tryCompactKeeping p fail => do
    let (r, t) ← s.tryCompactKeepingM fun x => do
      if ← fail.call x then pure (.error x) else .ok <$> p.call x
    match r with
    | .ok () => StepResult.reply .unit t
    | .error x => StepResult.reply (.refusal ("fail at " ++ toString x)) t
  | .ensureCapacity n => StepResult.reply .unit (s.ensureCapacity n)
  | .trim => StepResult.reply .unit s.trim
  | .trimIf threshold => StepResult.change (s.trimIf threshold) fun (b, t) => (.bool b, t)
  | .clear => StepResult.reply .unit s.clear
  | .length => StepResult.reply (.nat s.items.length) s
  | .isEmpty => StepResult.reply (.bool s.items.isEmpty) s
  | .capacity => StepResult.reply (.nat s.capacity) s
  | .reallocations => StepResult.reply (.nat s.reallocations) s
  | .indexOf v => StepResult.reply (Reply.ofNat? (s.indexOf? v)) s
  | .lastIndexOf v => StepResult.reply (Reply.ofNat? (s.lastIndexOf? v)) s
  | .contains v => StepResult.reply (.bool (s.contains v)) s
  | .sort => StepResult.reply .unit (s.sortBy Store.wordLe)
  | .sortBy o => do StepResult.reply .unit (← s.sortWithM o.before)
  | .sortByKey f => do StepResult.reply .unit (← s.sortWithM f.keyBefore)
  | .reverse => StepResult.reply .unit s.reverse
  | .slice lo hi => StepResult.read s (s.slice? lo hi) .words
  | .indexed => StepResult.reply (.indexed s.indexed) s
  | .sectionCount size => StepResult.read s (s.sectionCount size) .nat
  | .section k n => StepResult.read s (s.section? k n) .words
  | .copy => StepResult.reply .unit s.copy
  | .sameItems vs => StepResult.reply (.bool (s.items == vs)) s
  | .render => StepResult.reply (.text s.render) s
  | .select p => do StepResult.reply (.store (← s.selectM p.call)) s
  | .reject p => do StepResult.reply (.store (← s.rejectM p.call)) s
  | .takeWhile p => do StepResult.reply (.store (← s.takeWhileM p.call)) s
  | .dropWhile p => do StepResult.reply (.store (← s.dropWhileM p.call)) s
  | .partition p => do
    let (a, b) ← s.partitionM p.call
    StepResult.reply (.parts a b) s
  | .partitionWhile p => do
    let (a, b) ← s.partitionWhileM p.call
    StepResult.reply (.parts a b) s
  | .collect f => do StepResult.reply (.store (← s.collectM f.call)) s
  | .flatCollect sp => do StepResult.reply (.store (← s.flatCollectM sp.call)) s
  | .collectIf p f => do StepResult.reply (.store (← s.collectIfM p.call f.call)) s
  | .detect p => do StepResult.reply (Reply.ofWord? (← s.detectM p.call)) s
  | .detectIndex p => do StepResult.reply (Reply.ofNat? (← s.detectIndexM p.call)) s
  | .anySatisfy p => do StepResult.reply (.bool (← s.anySatisfyM p.call)) s
  | .allSatisfy p => do StepResult.reply (.bool (← s.allSatisfyM p.call)) s
  | .noneSatisfy p => do StepResult.reply (.bool (← s.noneSatisfyM p.call)) s
  | .count p => do StepResult.reply (.nat (← s.countM p.call)) s
  | .injectInto spec => do
    StepResult.reply (Reply.ofAcc spec.kind (← s.injectIntoM spec.init spec.step.call)) s
  | .sumOf f => do
    match ← s.sumOfM f.call with
    | some v => StepResult.reply (.word v) s
    | none => throw .sumOverflow
  | .minByKey f => do StepResult.reply (Reply.ofWord? (← s.minByKeyM f.call)) s
  | .maxByKey f => do StepResult.reply (Reply.ofWord? (← s.maxByKeyM f.call)) s
  | .distinct => StepResult.reply (.store s.distinct) s
  | .toSorted => StepResult.reply (.store (s.copy.sortBy Store.wordLe)) s
  | .toSortedBy o => do StepResult.reply (.store (← s.toSortedWithM o.before)) s
  | .groupBy f => do StepResult.reply (Reply.sortedGroups (← s.groupByM f.call)) s
  | .chunk size => StepResult.read s (s.chunk size) .chunks
  | .pipeline stages strategy terminal => do
    match ← runPipeline s.items stages strategy terminal with
    | .error f => pure (.error f)
    | .ok r => StepResult.reply (.staged r (← getThe Tally).stageCalls) s

/-- What one step of a store session gave. -/
inductive StepOutcome where
  /-- A reply, the calls the step made, and the store after it. -/
  | done (result : Reply) (calls : Nat) (state : Store Int64)
  /-- A failure, and the store, unchanged. -/
  | failed (failure : Failure) (state : Store Int64)
  /-- The step halted; the session ends here. -/
  | halted (cause : Halt)

/-- Runs the steps one after the other, each with its calls counted from zero, up to the first
halt. -/
def StoreStep.runAll : List StoreStep → Store Int64 → Tally → List StepOutcome
  | [], _, _ => []
  | step :: rest, s, t =>
    match ((step.run s).run).run { t with calls := 0 } with
    | (.error h, _) => [.halted h]
    | (.ok (.error f), t') => .failed f s :: StoreStep.runAll rest s t'
    | (.ok (.ok (r, s')), t') => .done r t'.calls s' :: StoreStep.runAll rest s' t'

/-- **The transcript of a store session**: the store it began with, the calls made to build
it, and what each step gave. -/
structure StoreTranscript where
  initial : Store Int64
  initCalls : Nat
  steps : List StepOutcome

/-- **Runs a store session**; a halt while building the store ends it at once. -/
def StoreStart.session (start : StoreStart) (steps : List StoreStep) :
    Except Halt StoreTranscript :=
  match (start.build.run).run {} with
  | (.error h, _) => .error h
  | (.ok s, t) => .ok ⟨s, t.calls, StoreStep.runAll steps s t⟩

end ArrayFlow
