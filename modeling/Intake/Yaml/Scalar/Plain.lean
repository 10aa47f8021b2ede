import Intake.Yaml.Scalar.Gap
/-!
# Plain scalars

A plain scalar has no quotes.  It ends before a comment, before `: `, before a line that is not
indented enough or that starts with a mark between documents, and inside brackets or braces
before any of `,[]{}`.
-/

namespace Intake.Yaml

def isFlowEnd (c : Char) : Bool := c == ',' || c == '[' || c == ']' || c == '\x7b' || c == '\x7d'

/-- Whether the characters from here on do not belong to a plain scalar. -/
def endsPlain (inFlow : Bool) (c : Char) (cs : List Char) : Bool :=
  (c == ':' && endsWord cs) || (inFlow && isFlowEnd c)

/-- Inside brackets or braces a colon may not touch what follows it and is no scalar. -/
def clashes (inFlow : Bool) (c : Char) (cs : List Char) : Bool :=
  inFlow && c == ':' && cs.head?.any fun d => isFlowEnd d || d == '?'

/-- Whether a scalar ends at a character that follows a gap. -/
def endsAfterGap (inFlow : Bool) (margin : Nat) (spot : Spot) (c : Char) (cs : List Char) : Bool :=
  (!inFlow && spot.column < margin) || (spot.column == 0 && startsWithMark (c :: cs)) || c == '#'

/-- A plain scalar, and what follows it.  `brokeOff` tells that the gap after it has a line
break. -/
structure Plain where
  text : List Char
  brokeOff : Bool
  next : Cursor

/-- Puts a part in front of a scalar. -/
def Plain.prepend (cs : List Char) (p : Plain) : Plain := { p with text := cs ++ p.text }

/-- The rest of a plain scalar, after a gap or none.  A tab may not indent a line. -/
def Plain.readFrom (inFlow : Bool) (margin : Nat) (gap : Option Gap) (spot : Spot) :
    List Char → Option Plain
  | [] => some ⟨[], Gap.hasBreak gap, ⟨spot, []⟩⟩
  | c :: cs =>
    if isGap c then
      if Gap.hasBreak gap ∧ c = '\t' ∧ spot.column < margin then none
      else readFrom inFlow margin (some (Gap.add c gap)) (spot.after c) cs
    else if (gap.isSome && endsAfterGap inFlow margin spot c cs) then
      some ⟨[], Gap.hasBreak gap, ⟨spot, c :: cs⟩⟩
    else if clashes inFlow c cs then none
    else if endsPlain inFlow c cs then some ⟨[], Gap.hasBreak gap, ⟨spot, c :: cs⟩⟩
    else
      (readFrom inFlow margin none (spot.after c) cs).map (Plain.prepend (Gap.textOf gap ++ [c]))

/-- The plain scalar at a cursor.  Its lines reach the column `margin` outside of brackets and
braces. -/
def Plain.read (inFlow : Bool) (margin : Nat) (c : Cursor) : Option Plain :=
  readFrom inFlow margin none c.spot c.rest

end Intake.Yaml
