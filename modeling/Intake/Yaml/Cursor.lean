import Intake.Yaml.Character
/-!
# Cursors

A cursor is a place in a text: the characters that are left, and the line and the column of the
next one, both counted from 0.
-/

namespace Intake.Yaml

structure Spot where
  line : Nat := 0
  column : Nat := 0
deriving DecidableEq, Repr

namespace Spot

/-- The spot after a character. -/
def after (s : Spot) (c : Char) : Spot :=
  if isBreak c then ⟨s.line + 1, 0⟩ else ⟨s.line, s.column + 1⟩

/-- The spot after some characters. -/
def past (s : Spot) (cs : List Char) : Spot := cs.foldl after s

end Spot

structure Cursor where
  spot : Spot := {}
  rest : List Char

namespace Cursor

/-- The next character. -/
def head? (c : Cursor) : Option Char := c.rest.head?

/-- The cursor after some characters. -/
def drop (c : Cursor) (n : Nat) : Cursor := ⟨c.spot.past (c.rest.take n), c.rest.drop n⟩

/-- The characters up to the first one without a property, and the cursor there. -/
def span (p : Char → Bool) (c : Cursor) : List Char × Cursor :=
  let taken := c.rest.takeWhile p
  (taken, ⟨c.spot.past taken, c.rest.dropWhile p⟩)

/-- The cursor at the first character without a property. -/
def skipWhile (p : Char → Bool) (c : Cursor) : Cursor := (c.span p).2

/-- Skips the blanks, the comment and the break that a line may end in; nothing else may be
there. -/
def finishLine (c : Cursor) : Option Cursor :=
  let c := c.skipWhile isBlank
  let c := if c.head? = some '#' then c.skipWhile (! isBreak ·) else c
  match c.rest with
  | [] => some c
  | d :: _ => if isBreak d then some (c.drop 1) else none

end Cursor

end Intake.Yaml
