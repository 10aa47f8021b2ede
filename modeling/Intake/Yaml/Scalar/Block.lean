import Intake.Yaml.Cursor
/-!
# Block scalars

A block scalar is the indented lines below its header.  A literal one keeps its line breaks; a
folded one joins lines that do not begin with a blank by spaces.  The header may fix the
indentation, which otherwise is that of the first line that is not empty, and may tell what
becomes of the breaks after the last line: they are stripped, kept, or clipped to the first.
-/

namespace Intake.Yaml

inductive Chomping where
  | strip
  | clip
  | keep
deriving DecidableEq, Repr

/-- What the header of a block scalar says. -/
structure BlockHeader where
  chomping : Chomping := .clip
  indent : Option Nat := none

namespace BlockHeader

def chomping? : Char → Option Chomping
  | '+' => some .keep
  | '-' => some .strip
  | _ => none

/-- The indicators of a header, in either order, and the cursor after them.  An indentation is a
digit from 1 to 9. -/
def read (c : Cursor) : Option (BlockHeader × Cursor) :=
  match c.rest with
  | a :: b :: _ =>
    match chomping? a, chomping? b with
    | some chomping, _ =>
      if b = '0' then none
      else if b.isDigit then some (⟨chomping, some (b.toNat - '0'.toNat)⟩, c.drop 2)
      else some (⟨chomping, none⟩, c.drop 1)
    | none, after =>
      if a = '0' then none
      else if a.isDigit then
        let indent := some (a.toNat - '0'.toNat)
        match after with
        | some chomping => some (⟨chomping, indent⟩, c.drop 2)
        | none => some (⟨.clip, indent⟩, c.drop 1)
      else some ({}, c)
  | [a] =>
    match chomping? a with
    | some chomping => some (⟨chomping, none⟩, c.drop 1)
    | none =>
      if a = '0' then none
      else if a.isDigit then some (⟨.clip, some (a.toNat - '0'.toNat)⟩, c.drop 1)
      else some ({}, c)
  | [] => some ({}, c)

end BlockHeader

/-- Whether a line has not reached its indentation yet; `none` is an indentation still to be
found. -/
def isShallow (indent : Option Nat) (spot : Spot) : Bool := indent.all fun n => spot.column < n

/-- The empty lines before the first other one: their breaks, the widest indentation seen, and
the cursor at the first character that is no indentation.  A tab does not indent. -/
def leadingBreaks (indent : Option Nat) (widest : Nat) (spot : Spot) :
    List Char → Option (List Char × Nat × Cursor)
  | [] => some ([], max widest spot.column, ⟨spot, []⟩)
  | c :: cs =>
    let shallow := isShallow indent spot
    if c = ' ' ∧ shallow then leadingBreaks indent widest (spot.after c) cs
    else if c = '\t' ∧ shallow then none
    else if isBreak c then do
      let (breaks, widest, next) ←
        leadingBreaks indent (max widest spot.column) (spot.after c) cs
      return (c :: breaks, widest, next)
    else some ([], max widest spot.column, ⟨spot, c :: cs⟩)

/-- Where the lines of a block scalar are being read: inside a line, which begins with a blank or
not, or between two lines, after the break that ended the first and some more. -/
inductive BlockPlace where
  | inside (blank : Bool)
  | between (blank : Bool) (first more : List Char)

/-- What stands between two lines: in a folded scalar the break between two lines that do not
begin with a blank is dropped, and is a space unless empty lines follow. -/
def betweenLines (literal : Bool) (first more : List Char) (blank nextBlank : Bool) : List Char :=
  if !literal && first == ['\n'] && !blank && !nextBlank then
    if more.isEmpty then [' '] else more
  else first ++ more

/-- What becomes of the breaks after the last line. -/
def Chomping.tail (how : Chomping) (first more : List Char) : List Char :=
  match how with
  | .strip => []
  | .clip => first
  | .keep => first ++ more

/-- The lines of a block scalar from a place on, and the cursor at the first line that is not
indented enough. -/
def blockLines (literal : Bool) (how : Chomping) (indent : Nat) (place : BlockPlace)
    (spot : Spot) : List Char → Option (List Char × Cursor)
  | [] =>
    match place with
    | .inside _ => some ([], ⟨spot, []⟩)
    | .between _ first more => some (how.tail first more, ⟨spot, []⟩)
  | c :: cs =>
    match place with
    | .inside blank =>
      if isBreak c then
        blockLines literal how indent (.between blank [c] []) (spot.after c) cs
      else do
        let (text, next) ← blockLines literal how indent place (spot.after c) cs
        return (c :: text, next)
    | .between blank first more =>
      if spot.column < indent ∧ c = ' ' then
        blockLines literal how indent place (spot.after c) cs
      else if spot.column < indent ∧ c = '\t' then none
      else if isBreak c then
        blockLines literal how indent (.between blank first (more ++ [c])) (spot.after c) cs
      else if spot.column = indent then do
        let nextBlank := isBlank c
        let (text, next) ← blockLines literal how indent (.inside nextBlank) (spot.after c) cs
        return (betweenLines literal first more blank nextBlank ++ c :: text, next)
      else some (how.tail first more, ⟨spot, c :: cs⟩)

/-- The block scalar whose first indicator has been read.  Its lines reach the column `margin`,
and an indentation of the header counts from the column before that. -/
def readBlock (literal : Bool) (margin : Nat) (c : Cursor) : Option (List Char × Cursor) := do
  let (header, c) ← BlockHeader.read c
  let c ← c.finishLine
  let fixed := header.indent.map (margin - 1 + ·)
  let (breaks, widest, c) ← leadingBreaks fixed 0 c.spot c.rest
  let indent := fixed.getD (max (max widest margin) 1)
  blockLines literal header.chomping indent (.between false [] breaks) c.spot c.rest

end Intake.Yaml
