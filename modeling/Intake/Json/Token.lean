import Intake.Json.Text
import Intake.Json.Figure
/-!
# Tokens of JSON

A token carries what it stands for, or nothing where its text is well formed but stands for
nothing: a string with half of a pair of units, a number out of range.  Such a token is an error
only where its value is asked for.
-/

namespace Intake.Json

inductive Token where
  | openList
  | closeList
  | openObject
  | closeObject
  | comma
  | colon
  | null
  | bool (b : Bool)
  | num (n : Option Number)
  | str (s : Option String)

def isBlank (c : Char) : Bool := c == ' ' || c == '\n' || c == '\t' || c == '\r'

/-- The word at the start of a text, if it is there, is dropped. -/
def dropWord : List Char → List Char → Option (List Char)
  | [], rest => some rest
  | w :: word, c :: cs => if w = c then dropWord word cs else none
  | _ :: _, [] => none

/-- One token at the start of a text that is not blank there. -/
def Token.read : List Char → Option (Token × List Char)
  | [] => none
  | '[' :: cs => some (.openList, cs)
  | ']' :: cs => some (.closeList, cs)
  | '\x7b' :: cs => some (.openObject, cs)
  | '\x7d' :: cs => some (.closeObject, cs)
  | ',' :: cs => some (.comma, cs)
  | ':' :: cs => some (.colon, cs)
  | 'n' :: cs => (dropWord ['u', 'l', 'l'] cs).map (.null, ·)
  | 't' :: cs => (dropWord ['r', 'u', 'e'] cs).map (.bool true, ·)
  | 'f' :: cs => (dropWord ['a', 'l', 's', 'e'] cs).map (.bool false, ·)
  | '"' :: cs => (scan cs).map fun (pieces, rest) => (.str (String.ofList <$> joinPieces pieces), rest)
  | cs => (Figure.read cs).map fun (f, rest) => (.num f.value?, rest)

/-- The tokens of a text; `fuel` bounds their number. -/
def Token.readAll : Nat → List Char → Option (List Token)
  | 0, _ => none
  | fuel + 1, cs =>
    match cs.dropWhile isBlank with
    | [] => some []
    | c :: cs => do
      let (t, rest) ← Token.read (c :: cs)
      return t :: (← Token.readAll fuel rest)

/-- The tokens of a text.  Each takes at least one character. -/
def tokens (text : List Char) : Option (List Token) := Token.readAll (text.length + 1) text

end Intake.Json
