import ArrayFlow.Closure.Basic
import ArrayFlow.Store.Basic

/-!
# What the functions of the language do

The functions of `ArrayFlow.Closure.Basic` are evaluated in the monad `ArrayFlow.Eval`, which
keeps a **tally** and may **halt**:

* the tally counts the calls that an operation of the library makes to the functions it was
  given (`ArrayFlow.Tally.calls`), the calls made by each stage of a pipeline
  (`ArrayFlow.Tally.stageCalls`), the questions put to each periodic predicate, and the words
  handed to a procedure;
* a halt (`ArrayFlow.Halt`) stops the run: a guard that accepted its word, a checked sum that
  left the range of words, a read past the end of a store.

Only a *top-level* call is counted, by `ArrayFlow.Pred.call` and its siblings: a predicate
asked inside another, or a function applied inside a composition, is part of the one call that
asked it. Questions put to a periodic predicate are counted wherever they are asked.
-/

namespace ArrayFlow

/-- **Why a run halted.** -/
inductive Halt where
  /-- A guard accepted this word. -/
  | badElement (x : Int64)
  /-- A checked sum left the range of words. -/
  | sumOverflow
  /-- A read at `index` in a store of `length` elements. -/
  | indexOutOfBounds (length index : Nat)
  deriving DecidableEq, Repr

/-- The sentence that reports a halt. -/
def Halt.message : Halt → String
  | .badElement x => "bad element " ++ toString x
  | .sumOverflow => "attempt to add with overflow"
  | .indexOutOfBounds n i =>
    "index out of bounds: the len is " ++ toString n ++ " but the index is " ++ toString i

/-- **The tally** of a run. -/
structure Tally where
  /-- Calls made by the operation under way. -/
  calls : Nat := 0
  /-- Calls made by each stage of the pipeline under way, first stage first. -/
  stageCalls : List Nat := []
  /-- Questions put so far to each periodic predicate, by its counter. -/
  questions : List (Nat × Nat) := []
  /-- The words handed to procedures, last first. -/
  visited : List Int64 := []

/-- **The monad of evaluation**: halting, and a tally that is kept when a run halts, so that the
calls made before the halt still count. -/
abbrev Eval := ExceptT Halt (StateM Tally)

namespace Tally

/-- Counts one call of the operation under way. -/
def bump : Eval Unit := modify fun t => { t with calls := t.calls + 1 }

/-- Adds one at position `k` of a list of counts. -/
def addAt : List Nat → Nat → List Nat
  | [], _ => []
  | c :: cs, 0 => (c + 1) :: cs
  | c :: cs, k + 1 => c :: addAt cs k

/-- Counts one call of stage `k`. -/
def bumpStage (k : Nat) : Eval Unit :=
  modify fun t => { t with stageCalls := addAt t.stageCalls k }

/-- Counts one question to the periodic predicate of counter `c`, and returns how many it has
been asked so far, this one included. -/
def ask (c : Nat) : Eval Nat := do
  let t ← get
  let n := ((t.questions.lookup c).getD 0) + 1
  set { t with questions := (c, n) :: t.questions.filter (·.1 != c) }
  pure n

/-- Records a word handed to a procedure. -/
def visit (x : Int64) : Eval Unit := modify fun t => { t with visited := x :: t.visited }

end Tally

mutual

/-- **What a predicate answers**, asking its parts as it needs them. -/
def Pred.eval : Pred → Int64 → Eval Bool
  | .const b, _ => pure b
  | .even, x => pure (Word.emod x 2 == 0)
  | .odd, x => pure (Word.emod x 2 == 1)
  | .compare r n, x => pure (r.test x n)
  | .residue d r, x => pure (Word.emod x d == r)
  | .not p, x => do pure !(← p.eval x)
  | .all ps, x => Pred.evalAll ps x
  | .any ps, x => Pred.evalAny ps x
  | .after f p, x => do p.eval (← f.eval x)
  | .guard stop p, x => do if ← stop.eval x then throw (.badElement x) else p.eval x
  | .every k c, _ => do pure ((← Tally.ask c) % k == 0)

/-- Whether every predicate of the list accepts, asking up to the first refusal. -/
def Pred.evalAll : List Pred → Int64 → Eval Bool
  | [], _ => pure true
  | p :: ps, x => do if ← p.eval x then Pred.evalAll ps x else pure false

/-- Whether some predicate of the list accepts, asking up to the first acceptance. -/
def Pred.evalAny : List Pred → Int64 → Eval Bool
  | [], _ => pure false
  | p :: ps, x => do if ← p.eval x then pure true else Pred.evalAny ps x

/-- **What a function gives**, with wrapping arithmetic. -/
def Func.eval : Func → Int64 → Eval Int64
  | .id, x => pure x
  | .neg, x => pure (-x)
  | .abs, x => pure (Word.abs x)
  | .square, x => pure (x * x)
  | .sign, x => pure (Word.sign x)
  | .add n, x => pure (x + n)
  | .mul n, x => pure (x * n)
  | .div n, x => pure (Word.ediv x n)
  | .rem n, x => pure (Word.emod x n)
  | .const n, _ => pure n
  | .min n, x => pure (if x ≤ n then x else n)
  | .max n, x => pure (if x ≥ n then x else n)
  | .seq fs, x => Func.evalSeq fs x
  | .guard stop f, x => do if ← stop.eval x then throw (.badElement x) else f.eval x

/-- The functions of the list applied first to last. -/
def Func.evalSeq : List Func → Int64 → Eval Int64
  | [], x => pure x
  | f :: fs, x => do Func.evalSeq fs (← f.eval x)

end

/-- A word clamped to `0 … 64`, as a count. -/
def Spread.bounded (n : Int64) : Nat := (max 0 (min n.toInt 64)).toNat

/-- **What a spreading function gives**: a feed that promises its length, unless it is lazy. -/
def Spread.eval : Spread → Int64 → Eval (Feed Int64)
  | .replicate f, x => do pure (Feed.exact (List.replicate (Spread.bounded (← f.eval x)) x))
  | .upTo f, x => do
    pure (Feed.exact ((List.range (Spread.bounded (← f.eval x))).map Int64.ofNat))
  | .list fs, x => do pure (Feed.exact (← fs.mapM (·.eval x)))
  | .empty, _ => pure (Feed.exact [])
  | .lazy s, x => do pure (← s.eval x).forget

/-- **What a folding step gives.** -/
def FoldStep.eval {k : AccKind} : FoldStep k → k.carrier → Int64 → Eval k.carrier
  | .add, acc, x => pure (acc + x)
  | .sub, acc, x => pure (acc - x)
  | .mul, acc, x => pure (acc * x)
  | .max, acc, x => pure (if acc ≥ x then acc else x)
  | .min, acc, x => pure (if acc ≤ x then acc else x)
  | .join, acc, x => pure (if acc.isEmpty then toString x else acc ++ "," ++ toString x)
  | .guard stop step, acc, x => do
    if ← stop.eval x then throw (.badElement x) else step.eval acc x

/-- **What a merging step gives.** -/
def MergeStep.eval {k : AccKind} : MergeStep k → k.carrier → k.carrier → k.carrier
  | .add, a, b => a + b
  | .sub, a, b => a - b
  | .max, a, b => if a ≥ b then a else b
  | .min, a, b => if a ≤ b then a else b
  | .concat, a, b => a ++ b
  | .pair, a, b => "(" ++ a ++ "|" ++ b ++ ")"
  | .first, a, _ => a
  | .last, _, b => b

/-- **Compares two words under an order**, evaluating the functions of keys as the comparison
needs them: for a key, of the first word and then of the second; for a key read greatest first,
of the second word and then of the first. A lexicographic order stops at the first of its
orders that tells the words apart. -/
def Order.compare : Order → Int64 → Int64 → Eval Ordering
  | .asc, a, b => pure (Ord.compare a b)
  | .desc, a, b => pure (Ord.compare b a)
  | .key f, a, b => do
    let x ← f.eval a
    let y ← f.eval b
    pure (Ord.compare x y)
  | .keyDesc f, a, b => do
    let y ← f.eval b
    let x ← f.eval a
    pure (Ord.compare y x)
  | .lex os, a, b => compareAll os a b
where
  /-- The first comparison of the list that does not find the words equal. -/
  compareAll : List Order → Int64 → Int64 → Eval Ordering
    | [], _, _ => pure .eq
    | o :: os, a, b => do
      match ← o.compare a b with
      | .eq => compareAll os a b
      | r => pure r

/-- Whether `a` must stand before `b` under an order. -/
def Order.before (o : Order) (a b : Int64) : Eval Bool := do
  pure ((← o.compare a b) == .lt)

/-- Whether `a` must stand before `b` when words are sorted by the key `f`; the key of `a` is
evaluated first. -/
def Func.keyBefore (f : Func) (a b : Int64) : Eval Bool := do
  let x ← f.eval a
  let y ← f.eval b
  pure (decide (x < y))

/-! ### Counted calls -/

/-- **A top-level call** of a predicate by the operation under way. -/
def Pred.call (p : Pred) (x : Int64) : Eval Bool := do Tally.bump; p.eval x

/-- A top-level call of a function by the operation under way. -/
def Func.call (f : Func) (x : Int64) : Eval Int64 := do Tally.bump; f.eval x

/-- A top-level call of a spreading function by the operation under way. -/
def Spread.call (s : Spread) (x : Int64) : Eval (Feed Int64) := do Tally.bump; s.eval x

/-- A top-level call of a folding step by the operation under way. -/
def FoldStep.call {k : AccKind} (step : FoldStep k) (acc : k.carrier) (x : Int64) :
    Eval k.carrier := do
  Tally.bump; step.eval acc x

/-- A top-level call of a merging step by the operation under way. -/
def MergeStep.call {k : AccKind} (step : MergeStep k) (a b : k.carrier) : Eval k.carrier := do
  Tally.bump; pure (step.eval a b)

/-- A call of a predicate by stage `k` of a pipeline. -/
def Pred.callAt (k : Nat) (p : Pred) (x : Int64) : Eval Bool := do
  Tally.bumpStage k; p.eval x

/-- A call of a function by stage `k` of a pipeline. -/
def Func.callAt (k : Nat) (f : Func) (x : Int64) : Eval Int64 := do
  Tally.bumpStage k; f.eval x

end ArrayFlow
