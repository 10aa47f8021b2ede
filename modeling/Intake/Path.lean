/-!
# Paths

A path names another value by the segments that lead to it.  It holds no value: it is looked up
at the time it is needed, from the place where it is used.
-/

namespace Intake

structure Path where
  segments : List String
deriving DecidableEq, Repr

namespace Path

/-- The pieces of a text between the separators; an empty text is one empty piece. -/
def splitAt (separator : Char) : List Char → List (List Char)
  | [] => [[]]
  | c :: cs =>
    if c = separator then [] :: splitAt separator cs
    else
      match splitAt separator cs with
      | [] => [[c]]
      | piece :: pieces => (c :: piece) :: pieces

/-- The path of a dotted text.  Empty segments are dropped. -/
def ofDotted (text : String) : Path :=
  ⟨((splitAt '.' text.toList).filter (! ·.isEmpty)).map String.ofList⟩

/-- The first segment decides where a look-up enters the tree. -/
def first? (p : Path) : Option String := p.segments.head?

def isEmpty (p : Path) : Bool := p.segments.isEmpty

/-- The segments joined by dots. -/
def dotted (segments : List String) : String := ".".intercalate segments

/-- How a path is shown. -/
def display (p : Path) : String := "ref(" ++ dotted p.segments ++ ")"

end Path

end Intake
