import Intake.Number
/-!
# Numbers in JSON

A JSON number without a fraction and an exponent is an integer if it is in range; any other one
is a binary64 number, also `-0` and an integer beyond the range.

A binary64 number is read quickly, not exactly.  The significand is collected in a 64-bit word:
the first digit that would overflow it is dropped, and with it the digits that follow in the same
part of the number, while each dropped digit before the point raises the exponent by one.  The
word, rounded, is then multiplied or divided once by a power of ten up to `1e308`; an exponent
below that first divides by `1e308`.  The result may differ from the nearest binary64 number by a
unit in the last place.  A magnitude out of range has no value; one too small is zero.
-/

namespace Intake.Json

/-- The parts of a number as written. -/
structure Figure where
  negative : Bool
  whole : List Char
  fraction : Option (List Char)
  exponent : Option (Bool × List Char)
deriving Repr

def digitValue (c : Char) : Nat := c.toNat - '0'.toNat

/-- The number that some digits spell. -/
def digitsValue (ds : List Char) : Nat := ds.foldl (fun n c => n * 10 + digitValue c) 0

/-- Splits off the digits that a text starts with. -/
def spanDigits (cs : List Char) : List Char × List Char :=
  (cs.takeWhile Char.isDigit, cs.dropWhile Char.isDigit)

/-- The part after the point. -/
def readFraction : List Char → Option (Option (List Char) × List Char)
  | '.' :: cs =>
    match spanDigits cs with
    | ([], _) => none
    | (ds, rest) => some (some ds, rest)
  | cs => some (none, cs)

/-- The digits of an exponent whose sign has been read. -/
def readPower (negative : Bool) (cs : List Char) :
    Option (Option (Bool × List Char) × List Char) :=
  match spanDigits cs with
  | ([], _) => none
  | (ds, rest) => some (some (negative, ds), rest)

/-- The part after an `e`. -/
def readExponent : List Char → Option (Option (Bool × List Char) × List Char)
  | c :: cs =>
    if c = 'e' ∨ c = 'E' then
      match cs with
      | '+' :: cs => readPower false cs
      | '-' :: cs => readPower true cs
      | cs => readPower false cs
    else some (none, c :: cs)
  | [] => some (none, [])

/-- A number at the start of a text, and the text after it.  A number of more than one digit
does not start with zero. -/
def Figure.read (cs : List Char) : Option (Figure × List Char) := do
  let (negative, cs) :=
    match cs with
    | '-' :: rest => (true, rest)
    | cs => (false, cs)
  let (whole, cs) := spanDigits cs
  match whole with
  | [] => none
  | '0' :: _ :: _ => none
  | _ =>
    let (fraction, cs) ← readFraction cs
    let (exponent, cs) ← readExponent cs
    return ({ negative, whole, fraction, exponent }, cs)

/-- Takes digits into a 64-bit word until one would overflow it; also the number of digits
taken. -/
def gather (word : Nat) : List Char → Nat × Nat
  | [] => (word, 0)
  | d :: ds =>
    let next := word * 10 + digitValue d
    if next < Nat.pow 2 64 then
      let (word, taken) := gather next ds
      (word, taken + 1)
    else (word, 0)

/-- A power of ten up to `1e308` as a binary64 number. -/
def powerOfTen (n : Nat) : Binary64 := .ofDecimal false 1 n

/-- Scales a significand by a power of ten with one multiplication or division; a power below
`1e-308` divides by `1e308` first, until nothing is left. -/
def scale (f : Binary64) (e : Int) : Option Binary64 :=
  if e.natAbs ≤ 308 then
    if 0 ≤ e then
      let product := f.mul (powerOfTen e.natAbs)
      if product.isFinite then some product else none
    else some (f.div (powerOfTen e.natAbs))
  else if f.isZero then some f
  else if 0 ≤ e then none
  else scale (f.div (powerOfTen 308)) (e + 308)
termination_by e.natAbs

/-- The greatest exponent that is told apart from larger ones. -/
def maxExponent : Nat := Nat.pow 2 31 - 1

/-- The binary64 number that the parts stand for, if it is in range. -/
def Figure.real? (f : Figure) : Option Binary64 := do
  let (word, taken) := gather 0 f.whole
  let dropped := f.whole.length - taken
  let (word, places) := gather word (f.fraction.getD [])
  let start : Int := (dropped : Int) - places
  let magnitude ←
    match f.exponent with
    | none => scale (.ofInt word) start
    | some (down, ds) =>
      let power := digitsValue ds
      if maxExponent < power then
        if word ≠ 0 ∧ !down then none else some (.zero false)
      else scale (.ofInt word) (if down then start - power else start + power)
  return if f.negative then magnitude.neg else magnitude

/-- The number, if it is in range. -/
def Figure.value? (f : Figure) : Option Number :=
  match f.fraction, f.exponent with
  | none, none =>
    let n := digitsValue f.whole
    if f.negative then
      if n ≠ 0 ∧ n ≤ Nat.pow 2 63 then some (.int (-n)) else .real <$> f.real?
    else if n < Nat.pow 2 64 then some (.int n) else .real <$> f.real?
  | _, _ => .real <$> f.real?

end Intake.Json
