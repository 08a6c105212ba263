/-!
# Misuse: arguments an operation refuses

Some operations of the library take a number or a configuration that only some values make
sensible: a load factor outside the unit interval, a range whose start lies past its end, a
batch or chunk size of zero, a pool of no threads. Such a call changes nothing and reports a
**misuse** instead, one constructor per reason, each with a fixed explanatory text
(`ArrayFlow.Misuse.text`).

The same reasons are shared by the store (`ArrayFlow.Store`) and by the strategies that run
pipelines (`ArrayFlow.Strategy`), so that both speak of a refused argument in one vocabulary.
-/

namespace ArrayFlow

/-- **A refused argument**: why an operation declined to run. -/
inductive Misuse where
  /-- A trimming threshold that is not a number between zero and one. -/
  | loadFactorOutOfRange
  /-- A range whose first index is greater than its end. -/
  | reversedRange
  /-- A batch size of zero. -/
  | zeroBatchSize
  /-- A division into zero sections. -/
  | zeroSectionCount
  /-- A section index that is not below the number of sections. -/
  | sectionIndexTooLarge
  /-- A chunk size of zero. -/
  | zeroChunkSize
  /-- A parallel strategy configured without a pool to run on. -/
  | missingPool
  /-- A pool of zero threads. -/
  | zeroConcurrency
  deriving DecidableEq, Repr

namespace Misuse

/-- The sentence that explains each refusal. -/
def text : Misuse → String
  | loadFactorOutOfRange => "load factor must be within [0, 1]"
  | reversedRange => "range start exceeds range end"
  | zeroBatchSize => "batch size must be at least 1"
  | zeroSectionCount => "section count must be at least 1"
  | sectionIndexTooLarge => "section index must be below section count"
  | zeroChunkSize => "chunk size must be at least 1"
  | missingPool => "thread pool is required"
  | zeroConcurrency => "concurrency must be at least 1"

end Misuse

end ArrayFlow
