import Intake.Yaml.Cursor
/-!
# Tags and directives

A tag says what a node is.  It is written `!<text>`, or as a handle and a suffix, whose handle
stands for the text that a directive gives it; a lone `!` stands for itself.  A directive is a
line at the start of a document that gives the version or a handle.
-/

namespace Intake.Yaml

/-- A tag as written; an empty handle stands for nothing. -/
structure TagToken where
  handle : String
  suffix : String
deriving DecidableEq, Repr

inductive Directive where
  | version (major minor : Nat)
  | handle (handle start : String)
deriving DecidableEq, Repr

/-- Characters of a tag; `whole` ones, between `<` and `>` or in a directive, may also hold flow
indicators. -/
def isTagChar (whole : Bool) (c : Char) : Bool :=
  isWordChar c || ";/?:@&=+$.%!~*'()".toList.contains c || (whole && ",[]".toList.contains c)

/-- The number of bytes of a character, from its first byte. -/
def byteCount? (b : Nat) : Option Nat :=
  if b < 0x80 then some 1
  else if b < 0xC0 then none
  else if b < 0xE0 then some 2
  else if b < 0xF0 then some 3
  else if b < 0xF8 then some 4
  else none

/-- The byte that a percent sign and two hexadecimal digits stand for. -/
def readByte : List Char → Option (Nat × List Char)
  | '%' :: a :: b :: rest => do return ((← hexValue? a) * 16 + (← hexValue? b), rest)
  | _ => none

/-- The further bytes of a character. -/
def readFurtherBytes (n : Nat) : Nat → List Char → Option (Nat × List Char)
  | 0, rest => some (n, rest)
  | count + 1, cs => do
    let (b, rest) ← readByte cs
    if b / 0x40 = 2 then readFurtherBytes (n * 0x40 + b % 0x40) count rest else none

/-- The character that escaped bytes stand for. -/
def readEscaped (cs : List Char) : Option (Char × List Char) := do
  let (b, rest) ← readByte cs
  let count ← byteCount? b
  let bits := if count = 1 then b else b % Nat.pow 2 (7 - count)
  let (n, rest) ← readFurtherBytes bits (count - 1) rest
  return (Char.ofNat n, rest)

/-- The text of some tag characters with the escapes replaced; `fuel` bounds their number. -/
def decodeTag : Nat → List Char → Option (List Char)
  | 0, _ => some []
  | _, [] => some []
  | fuel + 1, c :: cs =>
    if c = '%' then do
      let (d, rest) ← readEscaped (c :: cs)
      return d :: (← decodeTag fuel rest)
    else (c :: ·) <$> decodeTag fuel cs

/-- The tag characters at a cursor, decoded. -/
def readTagText (whole : Bool) (c : Cursor) : Option (List Char × Cursor) := do
  let (raw, next) := c.span (isTagChar whole)
  return (← decodeTag raw.length raw, next)

/-- A handle at a cursor that stands at `!`: the mark, word characters, and perhaps another
mark. -/
def readHandle (c : Cursor) : List Char × Cursor :=
  let (name, next) := (c.drop 1).span isWordChar
  if next.head? = some '!' then ('!' :: name ++ ['!'], next.drop 1) else ('!' :: name, next)

/-- A tag written in full, whose first mark has been seen. -/
def readWholeTag (c : Cursor) : Option (TagToken × Cursor) := do
  let (text, c) ← readTagText true (c.drop 2)
  if !text.isEmpty ∧ c.head? = some '>' then some (⟨"", String.ofList text⟩, c.drop 1) else none

/-- A tag of a handle and a suffix.  Without a second mark the handle is `!` and its word belongs
to the suffix. -/
def readShortTag (c : Cursor) : Option (TagToken × Cursor) := do
  let (handle, c) := readHandle c
  let (text, c) ← readTagText false c
  if handle.length > 1 ∧ handle.getLast? = some '!' then
    if text.isEmpty then none else some (⟨String.ofList handle, String.ofList text⟩, c)
  else
    match handle.drop 1 ++ text with
    | [] => some (⟨"", "!"⟩, c)
    | suffix => some (⟨"!", String.ofList suffix⟩, c)

/-- The tag at a cursor that stands at `!`.  A blank or a break follows it, or a comma inside
brackets or braces. -/
def readTag (inFlow : Bool) (c : Cursor) : Option (TagToken × Cursor) := do
  let (tag, c) ←
    match c.rest with
    | _ :: '<' :: _ => readWholeTag c
    | _ => readShortTag c
  if endsWord c.rest ∨ (inFlow ∧ c.head? = some ',') then some (tag, c) else none

/-- A number of at most nine digits. -/
def readVersionNumber (c : Cursor) : Option (Nat × Cursor) :=
  let (ds, next) := c.span Char.isDigit
  if ds.isEmpty ∨ ds.length > 9 then none
  else some (ds.foldl (fun n d => n * 10 + (d.toNat - '0'.toNat)) 0, next)

/-- What follows the name of a directive. -/
def readDirectiveBody (name : List Char) (c : Cursor) : Option (Directive × Cursor) :=
  if name = "YAML".toList then do
    let (major, c) ← readVersionNumber (c.skipWhile isBlank)
    if c.head? = some '.' then
      let (minor, c) ← readVersionNumber (c.drop 1)
      return (.version major minor, c)
    else none
  else if name = "TAG".toList then do
    let c := c.skipWhile isBlank
    if c.head? = some '!' then
      let (handle, c) := readHandle c
      if handle.length > 1 ∧ handle.getLast? ≠ some '!' then none
      else if c.head?.any isBlank then
        let (start, c) ← readTagText true (c.skipWhile isBlank)
        if !start.isEmpty ∧ endsWord c.rest then
          return (.handle (String.ofList handle) (String.ofList start), c)
        else none
      else none
    else none
  else none

/-- The directive at a cursor that stands at `%`, and the cursor on the next line. -/
def readDirective (c : Cursor) : Option (Directive × Cursor) := do
  let (name, c) := (c.drop 1).span isWordChar
  if !name.isEmpty ∧ endsWord c.rest then
    let (d, c) ← readDirectiveBody name c
    return (d, ← c.finishLine)
  else none

end Intake.Yaml
