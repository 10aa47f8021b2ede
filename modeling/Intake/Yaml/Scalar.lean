import Intake.Yaml.Token
import Intake.Value
import Intake.Number.Reading
/-!
# What scalars mean

A plain scalar without a tag is null, a truth value, a number or a string, by its text; any other
scalar without a tag is a string.  A standard tag asks for one of these, whatever the style; a
tag of the document's own, which begins with `!`, makes a scalar that is no value.

An integer is written in decimal, or after `0x`, `0o` or `0b` in another base, with or without a
sign.  Digits after a leading zero are no number.  An integer that no 64-bit word holds but one
of 128 bits does is no value either; one beyond that is read as a binary64 number.
-/

namespace Intake.Yaml

def boolTag : String := "tag:yaml.org,2002:bool"
def intTag : String := "tag:yaml.org,2002:int"
def floatTag : String := "tag:yaml.org,2002:float"
def nullTag : String := "tag:yaml.org,2002:null"

/-- The name of a tag of the document's own. -/
def ownTag? (tag : String) : Option String :=
  match tag.toList with
  | '!' :: name => some (String.ofList name)
  | _ => none

def isNullWord (s : String) : Bool := s == "null" || s == "Null" || s == "NULL" || s == "~"

def truthOf? (s : String) : Option Bool :=
  if s = "true" ∨ s = "True" ∨ s = "TRUE" then some true
  else if s = "false" ∨ s = "False" ∨ s = "FALSE" then some false
  else none

/-! ## Numbers -/

/-- The text without its sign. -/
def withoutSign : List Char → List Char
  | '-' :: cs => cs
  | '+' :: cs => cs
  | cs => cs

/-- Digits after a leading zero. -/
def isPadded (cs : List Char) : Bool :=
  match withoutSign cs with
  | '0' :: d :: ds => (d :: ds).all Char.isDigit
  | _ => false

/-- The number that one or more digits of a base spell. -/
def readDigitsIn (base : Nat) (cs : List Char) : Option Nat :=
  if cs.isEmpty then none
  else
    cs.foldlM
      (fun n c => ((hexValue? c).filter (· < base)).map (n * base + ·)) 0

/-- The number after a mark of its base, or in decimal. -/
def readMagnitude : List Char → Option Nat
  | '0' :: 'x' :: ds => readDigitsIn 16 ds
  | '0' :: 'o' :: ds => readDigitsIn 8 ds
  | '0' :: 'b' :: ds => readDigitsIn 2 ds
  | ds => readDigitsIn 10 ds

/-- The integer that a text spells. -/
def readInt (cs : List Char) : Option Int :=
  if isPadded cs then none
  else
    match cs with
    | '-' :: ds => (readMagnitude ds).map fun n => -(n : Int)
    | '+' :: ds => (readMagnitude ds).map fun n => (n : Int)
    | ds => (readMagnitude ds).map fun n => (n : Int)

/-- Whether a word of 128 bits holds an integer. -/
def isWide (n : Int) : Bool := -Int.pow 2 127 ≤ n && n < Int.pow 2 128

/-- The value of an integer, if a 64-bit word holds it. -/
def intValue? (n : Int) : Option Value :=
  if Number.holdsInt n then some (.num (.int n)) else none

/-- The texts of the numbers that are not finite. -/
def endlessWords : List String :=
  [".inf", ".Inf", ".INF", "+.inf", "+.Inf", "+.INF", "-.inf", "-.Inf", "-.INF", ".nan", ".NaN",
    ".NAN"]

/-- The value of a text as a binary64 number; one that is not finite is null. -/
def realValue? (s : String) : Option Value :=
  if endlessWords.contains s then some .null
  else
    match s.toList with
    | '+' :: '+' :: _ => none
    | '+' :: '-' :: _ => none
    | cs => (Number.readReal cs).map fun x => .num (.real x)

/-! ## Values -/

/-- The value of an integer, of a number or of a string; none of an integer that is too wide. -/
def wordValue? (s : String) : Option Value :=
  let cs := s.toList
  match (readInt cs).filter isWide with
  | some n => intValue? n
  | none => some (((if isPadded cs then none else realValue? s)).getD (.str s))

/-- The value of a plain scalar without a tag. -/
def plainValue? (s : String) : Option Value :=
  if s.isEmpty ∨ isNullWord s then some .null
  else
    match truthOf? s with
    | some b => some (.bool b)
    | none => wordValue? s

/-- The value of a scalar, if it is one. -/
def scalarValue? (tag : Option String) (s : String) (style : Style) : Option Value :=
  match tag with
  | none => if style = .plain then plainValue? s else some (.str s)
  | some t =>
    if t = boolTag then (truthOf? s).map .bool
    else if t = intTag then ((readInt s.toList).filter isWide).bind intValue?
    else if t = floatTag then realValue? s
    else if t = nullTag then (if isNullWord s then some .null else none)
    else if (ownTag? t).isSome then none
    else some (.str s)

end Intake.Yaml
