import ArrayFlow.Session.Store
import ArrayFlow.Session.Admission

/-!
# Answering a request

The answer to a request (`ArrayFlow.Request.answer`) is a refusal when the request is not
admissible (`ArrayFlow.Request.admissible`), and otherwise what running it gives: the
transcript of a store session, the answer to a pipeline run, the transcript of a batch
session, or the pool that was asked for.
-/

namespace ArrayFlow

/-- **The answer** to a request. -/
inductive Answer where
  /-- The request is not admissible; nothing was run. -/
  | refused
  | store (t : Except Halt StoreTranscript)
  | pipeline (a : Except Halt PipelineAnswer)
  | batch (t : BatchTranscript)
  | pool (p : Except Misuse Pool)

/-- **Answers a request**: admissible requests are run, the others refused. -/
def Request.answer (r : Request) : Answer :=
  if r.admissible then
    match r with
    | .store start steps => .store (start.session steps)
    | .pipeline p => .pipeline p.answer
    | .batch b => .batch b.transcript
    | .createPool threads => .pool (Pool.create threads)
  else .refused

end ArrayFlow
