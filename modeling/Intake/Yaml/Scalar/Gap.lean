import Intake.Yaml.Cursor
/-!
# Gaps in scalars

A plain or quoted scalar may have gaps: blanks, or line breaks with blanks around them.  Blanks
within a line stand for themselves.  A single line break is folded into a space; of more line
breaks the first is dropped.
-/

namespace Intake.Yaml

inductive Gap where
  /-- Blanks within a line. -/
  | inline (blanks : List Char)
  /-- The first line break, if it counts, and those after it. -/
  | lines (first more : List Char)
deriving Repr

namespace Gap

/-- What a gap stands for. -/
def text : Gap → List Char
  | inline blanks => blanks
  | lines first more =>
    if first = ['\n'] then (if more.isEmpty then [' '] else more) else first ++ more

/-- The gap with one more blank or break; blanks around a break do not count. -/
def add (c : Char) : Option Gap → Gap
  | none => if isBreak c then lines [c] [] else inline [c]
  | some (inline blanks) => if isBreak c then lines [c] [] else inline (blanks ++ [c])
  | some (lines first more) => lines first (if isBreak c then more ++ [c] else more)

def hasBreak : Option Gap → Bool
  | some (lines _ _) => true
  | _ => false

/-- What a gap stands for, if there is one. -/
def textOf (g : Option Gap) : List Char := g.elim [] text

end Gap

end Intake.Yaml
