import Intake.Number.Binary64
/-!
# The shortest decimal of a binary64 number

A number is written with the fewest decimal digits that read back as the same number, and of
the decimals with that many digits with the one nearest to it.

The reals that round to `m * 2 ^ e` reach half way to each neighbour; below a power of two the
lower neighbour is twice as near.  A half way point itself rounds to the even significand, so the
ends belong to the interval exactly when `m` is even.  Scaled by a power of ten the number, the
interval and every decimal of up to seventeen digits are integers, so the search compares
integers only.
-/

namespace Intake.Binary64

/-- The digits of a natural number, most significant first. -/
def decimalDigits (n : Nat) : List Char := Nat.toDigits 10 n

/-- A decimal `digits * 10 ^ exponent`. -/
structure Decimal where
  digits : Nat
  exponent : Int
deriving DecidableEq, Repr

/-- The interval of reals that round to a number, and the number, in units of
`10 ^ -places`. -/
structure Span where
  low : Nat
  centre : Nat
  high : Nat
  closed : Bool
  places : Nat

/-- The span of a number that is not zero.  Two more decimal places than the number itself needs
make the quarter of a unit of its significand an integer. -/
def span (x : Binary64) : Span :=
  let unit := Nat.pow 2 x.exponent.toNat * Nat.pow 5 (-x.exponent).toNat
  let centre := 100 * (x.significand * unit)
  let below := if x.significand = Nat.pow 2 52 ∧ x.exponent ≠ -1074 then 25 * unit else 50 * unit
  { low := centre - below
    centre := centre
    high := centre + 50 * unit
    closed := x.significand % 2 == 0
    places := (-x.exponent).toNat + 2 }

/-- Whether an amount lies in the interval. -/
def Span.holds (s : Span) (n : Nat) : Bool :=
  if s.closed then s.low ≤ n && n ≤ s.high else s.low < n && n < s.high

/-- The multiple of `grid` in the interval that is nearest to its centre; of two equally near
ones the even multiple. -/
def Span.nearest? (s : Span) (grid : Nat) : Option Nat :=
  let below := s.centre / grid
  let above := below + 1
  match s.holds (below * grid), s.holds (above * grid) with
  | false, false => none
  | true, false => some below
  | false, true => some above
  | true, true =>
    let down := s.centre - below * grid
    let up := above * grid - s.centre
    if down < up ∨ (down = up ∧ below % 2 = 0) then some below else some above

/-- Searches the grids `10 ^ k` from the coarse to the fine for one with a point in the
interval. -/
def Span.search (s : Span) : Nat → Decimal
  | 0 => ⟨s.centre, -s.places⟩
  | k + 1 =>
    match s.nearest? (Nat.pow 10 (k + 1)) with
    | some digits => ⟨digits, (k : Int) + 1 - s.places⟩
    | none => s.search k

/-- The decimal without the zeros its digits end in. -/
def Decimal.trim : Nat → Decimal → Decimal
  | 0, d => d
  | fuel + 1, d =>
    if d.digits % 10 = 0 ∧ d.digits ≠ 0 then Decimal.trim fuel ⟨d.digits / 10, d.exponent + 1⟩
    else d

/-- The shortest decimal that reads back as the magnitude of `x`. -/
def shortest (x : Binary64) : Decimal :=
  if x.isZero then ⟨0, 0⟩
  else
    let s := x.span
    let width := (decimalDigits s.centre).length
    Decimal.trim width (s.search width)

/-- How a number is spelled: plainly while the power of ten of its leading digit is from
`plainFrom` to `plainTo`, with an exponent beyond. -/
structure Spelling where
  plainFrom : Int
  plainTo : Int

/-- The digits with a point after the first `whole` of them, filled up with zeros so that both
sides of the point have a digit. -/
def placePoint (digits : List Char) (whole : Int) : List Char :=
  if whole ≤ 0 then
    '0' :: '.' :: (List.replicate (-whole).toNat '0' ++ digits)
  else
    let n := whole.toNat
    if digits.length ≤ n then
      digits ++ List.replicate (n - digits.length) '0' ++ ['.', '0']
    else digits.take n ++ '.' :: digits.drop n

/-- The digits with a point after the first one and the power of ten of that digit. -/
def withExponent (digits : List Char) (power : Int) : List Char :=
  let mantissa :=
    match digits with
    | d :: [] => [d]
    | d :: rest => d :: '.' :: rest
    | [] => []
  let sign := if power < 0 then '-' else '+'
  mantissa ++ 'e' :: sign :: decimalDigits power.natAbs

/-- The text of a number in a spelling. -/
def write (how : Spelling) (x : Binary64) : List Char :=
  let d := x.shortest
  let digits := decimalDigits d.digits
  let power := d.exponent + digits.length - 1
  let body :=
    if how.plainFrom ≤ power ∧ power ≤ how.plainTo then placePoint digits (power + 1)
    else withExponent digits power
  if x.negative then '-' :: body else body

end Intake.Binary64
