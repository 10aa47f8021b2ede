/-!
# Binary64 numbers

A finite binary64 number is kept as its sign, its significand and the power of two that scales
it, so every operation is exact integer arithmetic followed by one rounding to nearest, ties to
the even significand.  Nothing here uses machine floats.

The canonical form of a number has a significand below `2 ^ 53` and an exponent of at least
`-1074`, and the significand reaches `2 ^ 52` unless the exponent is `-1074`.  Every function of
this module that returns a number returns a canonical one, so two numbers are the same word
exactly when the structures are equal; `0.0` and `-0.0` are different words of equal value.

Rounding never overflows here: an exponent above `971` stands for a magnitude that binary64 does
not have, `isFinite` tells it, and the readers refuse it.
-/

namespace Intake

/-- The number `± significand * 2 ^ exponent`. -/
structure Binary64 where
  negative : Bool
  significand : Nat
  exponent : Int
deriving DecidableEq, Repr

namespace Binary64

/-- The zero of a sign. -/
def zero (negative : Bool) : Binary64 := ⟨negative, 0, -1074⟩

/-- Whether the magnitude is in the range of binary64. -/
def isFinite (x : Binary64) : Bool := x.exponent ≤ 971

def isZero (x : Binary64) : Bool := x.significand == 0

/-- The number of binary digits of `n`; none for zero. -/
def bitLength (n : Nat) : Nat := if n = 0 then 0 else Nat.log2 n + 1

/-- The quotient rounded to the nearest integer, a half to the even neighbour. -/
def roundQuotient (num den : Nat) : Nat :=
  let q := num / den
  let twice := 2 * (num % den)
  if den < twice ∨ (twice = den ∧ q % 2 = 1) then q + 1 else q

/-- The largest `k` with `2 ^ k ≤ num / den`, for positive `num` and `den`. -/
def floorLog2 (num den : Nat) : Int :=
  let k : Int := (bitLength num : Int) - bitLength den
  if num * Nat.pow 2 (-k).toNat < den * Nat.pow 2 k.toNat then k - 1 else k

/-- The binary64 number nearest to `± num / den`. -/
def ofRatio (negative : Bool) (num den : Nat) : Binary64 :=
  if num = 0 then zero negative
  else
    let e : Int := max (floorLog2 num den - 52) (-1074)
    let m := roundQuotient (num * Nat.pow 2 (-e).toNat) (den * Nat.pow 2 e.toNat)
    if m = Nat.pow 2 53 then ⟨negative, Nat.pow 2 52, e + 1⟩ else ⟨negative, m, e⟩

/-- The number nearest to an integer. -/
def ofInt (n : Int) : Binary64 := ofRatio (n < 0) n.natAbs 1

/-- The number nearest to `± num / den * 2 ^ e`. -/
def ofScaled (negative : Bool) (num den : Nat) (e : Int) : Binary64 :=
  ofRatio negative (num * Nat.pow 2 e.toNat) (den * Nat.pow 2 (-e).toNat)

/-- The number nearest to `± digits * 10 ^ e`.  Beyond four hundred places in either direction
the answer is settled without computing the power: the magnitude is out of range, or it rounds
to zero. -/
def ofDecimal (negative : Bool) (digits : Nat) (e : Int) : Binary64 :=
  if digits = 0 then zero negative
  else if 400 < e then ⟨negative, Nat.pow 2 52, 972⟩
  else if e + bitLength digits < -400 then zero negative
  else ofRatio negative (digits * Nat.pow 10 e.toNat) (Nat.pow 10 (-e).toNat)

protected def neg (x : Binary64) : Binary64 := { x with negative := !x.negative }

/-- The rounded product. -/
protected def mul (x y : Binary64) : Binary64 :=
  ofScaled (x.negative != y.negative) (x.significand * y.significand) 1 (x.exponent + y.exponent)

/-- The rounded quotient by a divisor that is not zero. -/
protected def div (x y : Binary64) : Binary64 :=
  ofScaled (x.negative != y.negative) x.significand y.significand (x.exponent - y.exponent)

/-- The value as a multiple of `2 ^ -1074`, which every canonical number is. -/
def scaled (x : Binary64) : Int :=
  let magnitude : Int := (x.significand * Nat.pow 2 (x.exponent + 1074).toNat : Nat)
  if x.negative then -magnitude else magnitude

/-- Order by value: the two zeros are equal. -/
def le (x y : Binary64) : Bool := x.scaled ≤ y.scaled

/-- Equality by value: the two zeros are equal. -/
def same (x y : Binary64) : Bool :=
  (x.isZero && y.isZero) || x == y

/-- Whether the value has no fractional part. -/
def isWhole (x : Binary64) : Bool :=
  x.significand % Nat.pow 2 (-x.exponent).toNat == 0

end Binary64

end Intake
