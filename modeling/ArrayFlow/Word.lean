/-!
# Arithmetic on 64-bit words

The elements the library is run on are signed 64-bit words (`Int64`). Their arithmetic wraps
around, as the word's own operations do, with one exception: sums taken by the library itself
are **checked**, and a sum that leaves the range of a word is reported instead of wrapped.

* `ArrayFlow.Word.checkedAdd?` – the sum, when it is a word;
* `ArrayFlow.Word.ediv` and `ArrayFlow.Word.emod` – **Euclidean** division and remainder:
  the remainder is never negative, and the quotient is the one that goes with it. Computed on
  integers and wrapped back, so the quotient of the least word by `-1` is the least word again;
* `ArrayFlow.Word.abs` – the absolute value, in which the least word is its own;
* `ArrayFlow.Word.sign` – `-1`, `0` or `1`.
-/

namespace ArrayFlow

namespace Word

/-- The least word, `-2^63`. -/
def least : Int := -9223372036854775808

/-- One past the greatest word, `2^63`. -/
def bound : Int := 9223372036854775808

/-- **Checked addition**: the sum of two words, unless it lies outside the words' range. -/
def checkedAdd? (a b : Int64) : Option Int64 :=
  let r := a.toInt + b.toInt
  if least ≤ r ∧ r < bound then some (Int64.ofInt r) else none

/-- Euclidean division, wrapped to a word. -/
def ediv (a b : Int64) : Int64 := Int64.ofInt (a.toInt / b.toInt)

/-- Euclidean remainder, wrapped to a word; for a nonzero divisor it is never negative. -/
def emod (a b : Int64) : Int64 := Int64.ofInt (a.toInt % b.toInt)

/-- The absolute value, wrapped: the least word stays where it is. -/
def abs (a : Int64) : Int64 := if a < 0 then -a else a

/-- The sign of a word: `-1`, `0` or `1`. -/
def sign (a : Int64) : Int64 := if a < 0 then -1 else if a = 0 then 0 else 1

end Word

end ArrayFlow
