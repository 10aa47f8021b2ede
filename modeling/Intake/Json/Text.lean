/-!
# Text in JSON

A JSON string holds characters as they are, short escapes and `\u` escapes.  A `\u` escape gives
a UTF-16 unit, so a character beyond `U+FFFF` takes two of them; a unit of a pair that stands
alone spells no text.  Reading goes in two steps: `scan` finds the end of the string and its
pieces, `joinPieces` turns the pieces into characters.  The split matters for a string that
nobody asks for: it must scan, but may spell no text.
-/

namespace Intake.Json

/-- What one piece of a string stands for. -/
inductive Piece where
  | char (c : Char)
  | unit (n : Nat)

def hexDigit? (c : Char) : Option Nat :=
  if '0' ≤ c ∧ c ≤ '9' then some (c.toNat - '0'.toNat)
  else if 'a' ≤ c ∧ c ≤ 'f' then some (c.toNat - 'a'.toNat + 10)
  else if 'A' ≤ c ∧ c ≤ 'F' then some (c.toNat - 'A'.toNat + 10)
  else none

/-- The number that four hexadecimal digits spell. -/
def hexUnit? (a b c d : Char) : Option Nat := do
  return (((← hexDigit? a) * 16 + (← hexDigit? b)) * 16 + (← hexDigit? c)) * 16 + (← hexDigit? d)

/-- The character of a short escape. -/
def shortEscape? : Char → Option Char
  | '"' => some '"'
  | '\\' => some '\\'
  | '/' => some '/'
  | 'b' => some '\x08'
  | 'f' => some '\x0c'
  | 'n' => some '\n'
  | 'r' => some '\r'
  | 't' => some '\t'
  | _ => none

/-- The pieces of a string whose opening quote has been read, and the text after it.  Characters
below `U+0020` may not stand in a string as they are. -/
def scan : List Char → Option (List Piece × List Char)
  | [] => none
  | '"' :: rest => some ([], rest)
  | '\\' :: 'u' :: a :: b :: c :: d :: rest => do
    let unit ← hexUnit? a b c d
    let (pieces, after) ← scan rest
    return (.unit unit :: pieces, after)
  | '\\' :: e :: rest => do
    let c ← shortEscape? e
    let (pieces, after) ← scan rest
    return (.char c :: pieces, after)
  | c :: rest =>
    if c = '\\' ∨ c < ' ' then none
    else do
      let (pieces, after) ← scan rest
      return (.char c :: pieces, after)

def isLeading (n : Nat) : Bool := 0xD800 ≤ n && n < 0xDC00

def isTrailing (n : Nat) : Bool := 0xDC00 ≤ n && n < 0xE000

/-- The characters that the pieces spell, if every unit of a pair has its partner. -/
def joinPieces : List Piece → Option (List Char)
  | [] => some []
  | .char c :: rest => (c :: ·) <$> joinPieces rest
  | .unit m :: .unit n :: rest =>
    if isLeading m then
      if isTrailing n then
        (Char.ofNat (0x10000 + (m - 0xD800) * 0x400 + (n - 0xDC00)) :: ·) <$> joinPieces rest
      else none
    else if isTrailing m then none
    else (Char.ofNat m :: ·) <$> joinPieces (.unit n :: rest)
  | .unit m :: rest =>
    if isLeading m ∨ isTrailing m then none else (Char.ofNat m :: ·) <$> joinPieces rest

def lowerHex (n : Nat) : Char :=
  if n < 10 then Char.ofNat ('0'.toNat + n) else Char.ofNat ('a'.toNat + n - 10)

/-- How a character stands in a written string: the quote, the backslash and the control
characters escaped, the short form where there is one, all else as it is. -/
def escape (c : Char) : List Char :=
  match c with
  | '"' => ['\\', '"']
  | '\\' => ['\\', '\\']
  | '\x08' => ['\\', 'b']
  | '\x0c' => ['\\', 'f']
  | '\n' => ['\\', 'n']
  | '\r' => ['\\', 'r']
  | '\t' => ['\\', 't']
  | c =>
    if c < ' ' then ['\\', 'u', '0', '0', lowerHex (c.toNat / 16), lowerHex (c.toNat % 16)]
    else [c]

/-- A string with its quotes. -/
def writeString (s : String) : List Char :=
  '"' :: (s.toList.flatMap escape ++ ['"'])

end Intake.Json
