import ArrayFlow.Closure.Eval
import ArrayFlow.Pipeline.Basic

/-!
# Replies and failures

What a session hands back: the **reply** of a step or a terminal operation
(`ArrayFlow.Reply`), one constructor per shape of answer, and the **failures** an operation
may report instead (`ArrayFlow.Failure`), each with the name of its kind and its sentence.
A failure leaves a store session going; a halt (`ArrayFlow.Halt`) ends it.
-/

namespace ArrayFlow

/-- **The reply** of a step or of a terminal operation. -/
inductive Reply where
  /-- Nothing to report. -/
  | unit
  | bool (b : Bool)
  | nat (n : Nat)
  | word (x : Int64)
  | text (s : String)
  | words (xs : List Int64)
  | store (s : Store Int64)
  /-- Two stores: the accepted elements and the others. -/
  | parts (accepted rejected : Store Int64)
  /-- Groups, each with its key. -/
  | groups (gs : List (Int64 × Store Int64))
  | chunks (s : Store (Store Int64))
  /-- Elements with their indices. -/
  | indexed (ps : List (Nat × Int64))
  /-- Index ranges `[start, stop)`. -/
  | ranges (rs : List (Nat × Nat))
  /-- Index ranges with their lengths. -/
  | spans (rs : List (Nat × Nat × Nat))
  | kinds (ks : List StageKind)
  /-- A compaction refused with this reason. -/
  | refusal (reason : String)
  /-- The reply of a pipeline run inside a store session, with the calls of its stages. -/
  | staged (value : Reply) (stageCalls : List Nat)

/-- A word, or nothing. -/
def Reply.ofWord? : Option Int64 → Reply
  | some x => .word x
  | none => .unit

/-- An index, or nothing. -/
def Reply.ofNat? : Option Nat → Reply
  | some n => .nat n
  | none => .unit

/-- An accumulator of either kind. -/
def Reply.ofAcc : (k : AccKind) → k.carrier → Reply
  | .word, x => .word x
  | .text, s => .text s

/-- **A failure** that an operation reports instead of a reply. -/
inductive Failure where
  /-- A refusal by the store. -/
  | store (e : Store.Error)
  /-- A refused configuration of a strategy. -/
  | refused (reason : Misuse)
  /-- A batch of a parallel run halted. -/
  | execution (cause : Halt)

/-- The name of a failure's kind. -/
def Failure.kind : Failure → String
  | .store (.indexOutOfRange _ _) => "IndexOutOfRange"
  | .store (.invalidArgument _) => "InvalidArgument"
  | .refused _ => "InvalidArgument"
  | .execution _ => "ExecutionFailure"

/-- The sentence that reports a failure. -/
def Failure.message : Failure → String
  | .store e => e.message
  | .refused reason => "invalid argument: " ++ reason.text
  | .execution cause => "execution failed: " ++ cause.message

end ArrayFlow
