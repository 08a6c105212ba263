import ArrayFlow.Word

/-!
# A small language of functions on words

The operations of the library take functions as arguments. So that a request can name them,
this file gives a small language of such functions as data:

* `ArrayFlow.Pred` – **predicates** on words: constants, parity, comparison with a bound,
  residues, negation, conjunction and disjunction of lists, a predicate after a function,
  a guard that stops the run on the elements it accepts, and the *periodic* predicate
  `every k`, which accepts every `k`-th time it is asked;
* `ArrayFlow.Func` – **functions** from words to words, with wrapping arithmetic, Euclidean
  division and remainder, composition of a list, and the same kind of guard;
* `ArrayFlow.Spread` – functions from a word to a **feed** of words, some of which promise
  their length and some of which do not;
* `ArrayFlow.FoldStep` and `ArrayFlow.MergeStep` – **accumulating** functions, indexed by the
  kind of accumulator they work on (`ArrayFlow.AccKind`), so that a step can only be paired
  with an accumulator of its kind;
* `ArrayFlow.Order` – **orders** on words, by value or by a key, either way round, and
  lexicographic combinations.

Their meaning is given in `ArrayFlow.Closure.Eval`.
-/

namespace ArrayFlow

/-- A comparison of a word with a fixed bound. -/
inductive Relation where
  | gt
  | ge
  | lt
  | le
  | eq
  | ne
  deriving DecidableEq, Repr

/-- Whether `x` stands in the relation to the bound `n`. -/
def Relation.test : Relation → Int64 → Int64 → Bool
  | .gt, x, n => decide (x > n)
  | .ge, x, n => decide (x ≥ n)
  | .lt, x, n => decide (x < n)
  | .le, x, n => decide (x ≤ n)
  | .eq, x, n => x == n
  | .ne, x, n => x != n

mutual

/-- **A predicate** on words. -/
inductive Pred where
  /-- Always the same answer. -/
  | const (b : Bool)
  /-- Even words. -/
  | even
  /-- Odd words. -/
  | odd
  /-- Words that stand in a relation to a bound. -/
  | compare (r : Relation) (n : Int64)
  /-- Words whose Euclidean remainder by `d` is `r`. -/
  | residue (d r : Int64)
  /-- The opposite answer. -/
  | not (p : Pred)
  /-- Accepted by every predicate of the list, asked in order up to the first refusal. -/
  | all (ps : List Pred)
  /-- Accepted by some predicate of the list, asked in order up to the first acceptance. -/
  | any (ps : List Pred)
  /-- The predicate asked about the image of the word. -/
  | after (f : Func) (p : Pred)
  /-- Stops the run on the words the guard accepts, and asks `p` about the others. -/
  | guard (stop : Pred) (p : Pred)
  /-- Accepts every `k`-th time it is asked; `counter` names its own count of questions. -/
  | every (k : Nat) (counter : Nat)

/-- **A function** from words to words; all arithmetic wraps. -/
inductive Func where
  | id
  | neg
  | abs
  | square
  | sign
  | add (n : Int64)
  | mul (n : Int64)
  /-- Euclidean quotient by `n`. -/
  | div (n : Int64)
  /-- Euclidean remainder by `n`. -/
  | rem (n : Int64)
  | const (n : Int64)
  | min (n : Int64)
  | max (n : Int64)
  /-- The functions of the list, applied first to last. -/
  | seq (fs : List Func)
  /-- Stops the run on the words the guard accepts, and applies `f` to the others. -/
  | guard (stop : Pred) (f : Func)

end

/-- **A spreading function**: from a word to a feed of words. -/
inductive Spread where
  /-- The word, as many times as the function says, between 0 and 64. -/
  | replicate (f : Func)
  /-- `0, 1, …` up to the number the function says, between 0 and 64, excluded. -/
  | upTo (f : Func)
  /-- The images of the word under each function of the list. -/
  | list (fs : List Func)
  /-- Nothing. -/
  | empty
  /-- The same elements, with no length promised in advance. -/
  | lazy (s : Spread)

/-- **The kind of an accumulator**: a word or a text. -/
inductive AccKind where
  | word
  | text
  deriving DecidableEq, Repr

/-- The values an accumulator of a kind holds. -/
abbrev AccKind.carrier : AccKind → Type
  | .word => Int64
  | .text => String

/-- **A folding step** `(acc, x) ↦ acc` for accumulators of kind `k`. -/
inductive FoldStep : AccKind → Type where
  | add : FoldStep .word
  /-- `acc - x`. -/
  | sub : FoldStep .word
  | mul : FoldStep .word
  | max : FoldStep .word
  | min : FoldStep .word
  /-- The text with `x` in decimal added, after a comma unless the text is empty. -/
  | join : FoldStep .text
  /-- Stops the run on the words the guard accepts, and takes the step for the others. -/
  | guard {k : AccKind} (stop : Pred) (step : FoldStep k) : FoldStep k

/-- **A merging step** `(a, b) ↦ acc` for accumulators of kind `k`. -/
inductive MergeStep : AccKind → Type where
  | add : MergeStep .word
  /-- `a - b`. -/
  | sub : MergeStep .word
  | max : MergeStep .word
  | min : MergeStep .word
  /-- `a` then `b`. -/
  | concat : MergeStep .text
  /-- `(a|b)`. -/
  | pair : MergeStep .text
  /-- `a`. -/
  | first {k : AccKind} : MergeStep k
  /-- `b`. -/
  | last {k : AccKind} : MergeStep k

/-- **An order** on words. -/
inductive Order where
  /-- By value, least first. -/
  | asc
  /-- By value, greatest first. -/
  | desc
  /-- By the image under a function, least first. -/
  | key (f : Func)
  /-- By the image under a function, greatest first. -/
  | keyDesc (f : Func)
  /-- By the first order of the list, ties broken by the next, and so on. -/
  | lex (os : List Order)

end ArrayFlow
