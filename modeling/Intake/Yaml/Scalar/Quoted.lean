import Intake.Yaml.Scalar.Gap
/-!
# Quoted scalars

Between single quotes a quote is written twice, and nothing else is special.  Between double
quotes a backslash begins an escape: a short one, a character by its number in two, four or eight
hexadecimal digits, or an escaped line break, which stands for nothing.
-/

namespace Intake.Yaml

/-- The number that hexadecimal digits spell. -/
def hexNumber? (ds : List Char) : Option Nat :=
  ds.foldlM (fun n d => (hexValue? d).map (n * 16 + ·)) 0

/-- The character of a number; a half of a pair of units is none. -/
def charOfNumber? (n : Nat) : Option Char :=
  if n.isValidChar then some (Char.ofNat n) else none

/-- The characters that short escapes stand for. -/
def shortEscapes : List (Char × Char) :=
  [ ('0', '\x00'), ('a', '\x07'), ('b', '\x08'), ('t', '\t'), ('\t', '\t'), ('n', '\n')
  , ('v', '\x0b'), ('f', '\x0c'), ('r', '\r'), ('e', '\x1b'), (' ', ' '), ('"', '"'), ('/', '/')
  , ('\\', '\\'), ('N', '\u0085'), ('_', '\u00a0'), ('L', '\u2028'), ('P', '\u2029') ]

/-- How many hexadecimal digits follow the letter of an escape. -/
def codeLength? : Char → Option Nat
  | 'x' => some 2
  | 'u' => some 4
  | 'U' => some 8
  | _ => none

/-- The character of an escape, from the character after the backslash on, and the length of the
escape. -/
def escape? (c : Char) (cs : List Char) : Option (Char × Nat) :=
  match codeLength? c with
  | some n =>
    if (cs.take n).length = n then do
      return (← charOfNumber? (← hexNumber? (cs.take n)), n + 1)
    else none
  | none => (shortEscapes.lookup c).map (·, 1)

/-- What a character between quotes means. -/
inductive Quoted where
  | close
  /-- A character, and how many characters after this one belong to it. -/
  | char (c : Char) (skip : Nat)
  /-- An escaped line break. -/
  | join

/-- What a character that is neither blank nor break means. -/
def Quoted.classify (single : Bool) (c : Char) (cs : List Char) : Option Quoted :=
  if single then
    if c = '\'' then
      match cs with
      | '\'' :: _ => some (.char '\'' 1)
      | _ => some .close
    else some (.char c 0)
  else if c = '"' then some .close
  else if c = '\\' then
    match cs with
    | [] => none
    | d :: ds => if isBreak d then some .join else (escape? d ds).map fun e => .char e.1 e.2
  else some (.char c 0)

/-- The rest of a quoted scalar; `skip` characters have been dealt with. -/
def Quoted.readFrom (single : Bool) (gap : Option Gap) (spot : Spot) :
    Nat → List Char → Option (List Char × Cursor)
  | _, [] => none
  | skip + 1, c :: cs => readFrom single gap (spot.after c) skip cs
  | 0, c :: cs =>
    if isGap c then readFrom single (some (Gap.add c gap)) (spot.after c) 0 cs
    else if spot.column = 0 ∧ startsWithMark (c :: cs) then none
    else do
      let before := Gap.textOf gap
      match ← classify single c cs with
      | .close => return (before, ⟨spot.after c, cs⟩)
      | .char d skip =>
        let (text, next) ← readFrom single none (spot.after c) skip cs
        return (before ++ d :: text, next)
      | .join =>
        let (text, next) ← readFrom single (some (.lines [] [])) (spot.after c) 1 cs
        return (before ++ text, next)

/-- The text of a quoted scalar whose first quote has been read, and the cursor after the last
one. -/
def Quoted.read (single : Bool) (c : Cursor) : Option (List Char × Cursor) :=
  readFrom single none c.spot 0 c.rest

end Intake.Yaml
