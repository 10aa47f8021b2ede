import Intake.Number
/-!
# Numbers in text

Two readers of plain decimal text: integers of a signed or unsigned 64-bit word, and binary64
numbers, rounded once and correctly.  Neither allows blanks.  The point needs a digit on one
side of it only: `5.` and `.5` are numbers.
-/

namespace Intake.Number

/-- The sign in front of a text, and the rest. -/
def splitSign : List Char → Bool × List Char
  | '-' :: cs => (true, cs)
  | '+' :: cs => (false, cs)
  | cs => (false, cs)

/-- The natural number that one or more digits spell. -/
def readDigits (cs : List Char) : Option Nat :=
  if cs ≠ [] ∧ cs.all Char.isDigit then
    some (cs.foldl (fun n c => n * 10 + (c.toNat - '0'.toNat)) 0)
  else none

/-- The integer that a text with an optional sign spells. -/
def readInt (cs : List Char) : Option Int :=
  let (negative, digits) := splitSign cs
  (readDigits digits).map fun n => if negative then -(n : Int) else n

/-- The integer of a signed 64-bit word. -/
def readInt64 (cs : List Char) : Option Int :=
  (readInt cs).filter fun n => -Int.pow 2 63 ≤ n && n < Int.pow 2 63

/-- The power of ten after an `e`, which must end the text; zero without one. -/
def readPower : List Char → Option Int
  | [] => some 0
  | c :: cs => if c = 'e' ∨ c = 'E' then readInt cs else none

/-- The binary64 number nearest to a decimal text, if its magnitude is in range. -/
def readReal (cs : List Char) : Option Binary64 := do
  let (negative, cs) := splitSign cs
  let whole := cs.takeWhile Char.isDigit
  let (fraction, rest) :=
    match cs.dropWhile Char.isDigit with
    | '.' :: after => (after.takeWhile Char.isDigit, after.dropWhile Char.isDigit)
    | after => ([], after)
  let digits ← readDigits (whole ++ fraction)
  let power ← readPower rest
  let x := Binary64.ofDecimal negative digits (power - fraction.length)
  if x.isFinite then some x else none

end Intake.Number
