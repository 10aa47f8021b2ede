import Intake.Text.CaseTable
/-!
# Letter case

Lower and upper case of a text, character by character.  Only the capital sigma looks around: at
the end of a word its small form is `ς`, elsewhere `σ`.  It ends a word when a letter with case
stands before it and none after it; characters such as apostrophes and accents do not count.
-/

namespace Intake.Text

/-- The characters a table maps a character to. -/
def mapCase (runs : List CaseRun) (special : List (Nat × List Nat)) (c : Char) : List Char :=
  match special.lookup c.toNat with
  | some ns => ns.map Char.ofNat
  | none =>
    match runs.findSome? (·.image? c.toNat) with
    | some n => [Char.ofNat n]
    | none => [c]

def isIgnorable (c : Char) : Bool := inRanges ignorableRanges c.toNat

def isCased (c : Char) : Bool := inRanges casedRanges c.toNat

/-- Whether the first character that counts has case. -/
def meetsCased (cs : List Char) : Bool :=
  match cs.dropWhile isIgnorable with
  | c :: _ => isCased c
  | [] => false

/-- Lower case of the characters that follow those in `before`, the nearest first. -/
def lowerAfter (before : List Char) : List Char → List Char
  | [] => []
  | c :: cs =>
    let here :=
      if c = 'Σ' then [if meetsCased before && !meetsCased cs then 'ς' else 'σ']
      else mapCase lowerRuns lowerSpecial c
    here ++ lowerAfter (c :: before) cs

def lower (cs : List Char) : List Char := lowerAfter [] cs

def upper (cs : List Char) : List Char := cs.flatMap (mapCase upperRuns upperSpecial)

/-- Lower case of the letters `A` to `Z` only. -/
def lowerAscii (cs : List Char) : List Char := cs.map Char.toLower

end Intake.Text
