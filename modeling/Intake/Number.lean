import Intake.Number.Shortest
/-!
# Numbers

A number is an integer or a binary64 number, and it stays what it was written as: `1` and `1.0`
are different numbers.  Integers range from `-2 ^ 63` to `2 ^ 64 - 1`; the readers keep to that
range.
-/

namespace Intake

inductive Number where
  | int (n : Int)
  | real (x : Binary64)
deriving Repr

namespace Number

/-- Integers of an unsigned or a signed 64-bit word. -/
def holdsInt (n : Int) : Bool := -Int.pow 2 63 ≤ n && n < Int.pow 2 64

/-- An integer never equals a binary64 number; those are equal by value. -/
def same : Number → Number → Bool
  | int m, int n => m == n
  | real x, real y => x.same y
  | _, _ => false

instance : BEq Number := ⟨same⟩

/-- The number as a binary64 number, which rounds integers beyond `2 ^ 53`. -/
def toBinary64 : Number → Binary64
  | int n => .ofInt n
  | real x => x

/-- The number as an integer of a signed 64-bit word, if it is one. -/
def toInt64? : Number → Option Int
  | int n => if n < Int.pow 2 63 then some n else none
  | real _ => none

/-- Binary64 numbers are written plainly from `0.00001` up to below `1e+16`. -/
def spelling : Binary64.Spelling := ⟨-5, 15⟩

/-- The text of a number: a binary64 number always shows a fraction or an exponent, so that it
reads back as one. -/
def write : Number → List Char
  | int n => (toString n).toList
  | real x => x.write spelling

end Number

end Intake
