import Intake.Yaml.Token
import Intake.Yaml.Scalar.Plain
import Intake.Yaml.Scalar.Quoted
import Intake.Yaml.Scalar.Block
/-!
# The token stream of a text

The text is read token by token.  Outside of brackets and braces the column of a token decides
which blocks end before it, and a dash, a key or a colon in a column further right begins a
block.

A key may be announced only by the colon after it.  Where a key may start, its place is
remembered; when the colon comes, on the same line and not too far away, the announcement is put
in front of the key after the fact.  A token in the very column of its block has to be a key.
-/

namespace Intake.Yaml

/-- A place where a key may have started: the number of tokens before it, its spot, and whether
it has to be one. -/
structure KeyPlace where
  index : Nat
  spot : Spot
  required : Bool

/-- How far the token stream has been read. -/
structure Lexer where
  cursor : Cursor
  tokens : Array Token := #[]
  /-- The least column of what is nested in the innermost block; 0 outside of all blocks. -/
  margin : Nat := 0
  /-- The margins of the blocks around it. -/
  outer : List Nat := []
  /-- The place of a possible key. -/
  key : Option KeyPlace := none
  /-- The possible keys in front of the brackets and braces that are open. -/
  flow : List (Option KeyPlace) := []
  /-- Whether a key may start here. -/
  keyAllowed : Bool := true

namespace Lexer

def inFlow (s : Lexer) : Bool := !s.flow.isEmpty

def column (s : Lexer) : Nat := s.cursor.spot.column

def push (s : Lexer) (t : Token) : Lexer := { s with tokens := s.tokens.push t }

/-- Moves past some characters. -/
def advance (s : Lexer) (n : Nat) : Lexer := { s with cursor := s.cursor.drop n }

def allowKey (s : Lexer) (allowed : Bool) : Lexer := { s with keyAllowed := allowed }

/-! ## Between tokens -/

/-- Skips blanks, comments and breaks: tabs only where no key may start, and a byte order mark
at the start of a line.  A key may start on a new line outside of brackets and braces. -/
def skipGap (inFlow allowed comment : Bool) (spot : Spot) : List Char → Bool × Cursor
  | [] => (allowed, ⟨spot, []⟩)
  | c :: cs =>
    if isBreak c then skipGap inFlow (allowed || !inFlow) false (spot.after c) cs
    else if comment then skipGap inFlow allowed true (spot.after c) cs
    else if c = '\uFEFF' ∧ spot.column = 0 then skipGap inFlow allowed false (spot.after c) cs
    else if c = ' ' ∨ (c = '\t' ∧ (inFlow ∨ !allowed)) then
      skipGap inFlow allowed false (spot.after c) cs
    else if c = '#' then skipGap inFlow allowed true (spot.after c) cs
    else (allowed, ⟨spot, c :: cs⟩)

/-- The cursor at the next token. -/
def toNext (s : Lexer) : Lexer :=
  let (keyAllowed, cursor) := skipGap s.inFlow s.keyAllowed false s.cursor.spot s.cursor.rest
  { s with keyAllowed, cursor }

/-- Whether a key at a place can no longer be followed by its colon. -/
def isStale (spot : Spot) (k : KeyPlace) : Bool :=
  k.spot.line < spot.line || k.spot.column + 1024 < spot.column

/-- Forgets a key that is stale, which must not be a required one. -/
def dropStale (spot : Spot) : Option KeyPlace → Option (Option KeyPlace)
  | none => some none
  | some k => if isStale spot k then (if k.required then none else some none) else some (some k)

def dropStaleKeys (s : Lexer) : Option Lexer := do
  let key ← dropStale s.cursor.spot s.key
  let flow ← s.flow.mapM (dropStale s.cursor.spot)
  return { s with key, flow }

/-! ## Keys -/

/-- Forgets the possible key, which must not be a required one. -/
def dropKey (s : Lexer) : Option Lexer :=
  match s.key with
  | some k => if k.required then none else some { s with key := none }
  | none => some s

/-- Remembers that a key may start here, if it may. -/
def markKey (s : Lexer) : Option Lexer :=
  if s.keyAllowed then do
    let required := !s.inFlow && s.margin == s.column + 1
    let s ← s.dropKey
    return { s with key := some ⟨s.tokens.size, s.cursor.spot, required⟩ }
  else some s

/-! ## Blocks -/

/-- Begins a block in a column, unless the innermost one reaches it: its start is put in front of
the token with a number. -/
def openBlock (s : Lexer) (column index : Nat) (start : Token) : Lexer :=
  if !s.inFlow && s.margin ≤ column then
    { s with
      margin := column + 1
      outer := s.margin :: s.outer
      tokens := s.tokens.insertIdxIfInBounds index start }
  else s

/-- Begins a block at the cursor. -/
def openBlockHere (s : Lexer) (start : Token) : Lexer :=
  s.openBlock s.column s.tokens.size start

/-- Ends blocks until one has a margin of at most `limit`. -/
def closeTo (limit : Nat) : List Nat → Nat → Array Token → Nat × List Nat × Array Token
  | [], margin, tokens => (margin, [], tokens)
  | m :: outer, margin, tokens =>
    if limit < margin then closeTo limit outer m (tokens.push .blockEnd)
    else (margin, m :: outer, tokens)

/-- Ends the blocks that lie further right than a limit. -/
def closeBlocks (s : Lexer) (limit : Nat) : Lexer :=
  if s.inFlow then s
  else
    let (margin, outer, tokens) := closeTo limit s.outer s.margin s.tokens
    { s with margin, outer, tokens }

/-! ## Tokens -/

/-- A token of one character. -/
def punctuation (s : Lexer) (t : Token) (allowed : Bool) : Lexer :=
  ((s.push t).advance 1).allowKey allowed

/-- A mark between documents, or a directive, ends all blocks. -/
def endBlocks (s : Lexer) : Option Lexer := (s.closeBlocks 0).dropKey.map (·.allowKey false)

def takeDirective (s : Lexer) : Option Lexer := do
  let s ← s.endBlocks
  let (d, cursor) ← readDirective s.cursor
  return { s with cursor }.push (.directive d)

def takeMark (s : Lexer) (t : Token) : Option Lexer := do
  return ((← s.endBlocks).push t).advance 3

/-- Opens a bracket or a brace, which may be a key. -/
def openFlow (s : Lexer) (t : Token) : Option Lexer := do
  let s ← s.markKey
  return { s with flow := s.key :: s.flow, key := none }.punctuation t true

def closeFlow (s : Lexer) (t : Token) : Option Lexer := do
  let s ← s.dropKey
  let s := match s.flow with
    | [] => s
    | key :: flow => { s with key, flow }
  return s.punctuation t false

def takeComma (s : Lexer) : Option Lexer := do return (← s.dropKey).punctuation .comma true

def takeItem (s : Lexer) : Option Lexer := do
  if !s.inFlow && !s.keyAllowed then none
  else return (← (s.openBlockHere .blockList).dropKey).punctuation .item true

/-- A key that is announced by a question mark. -/
def takeKey (s : Lexer) : Option Lexer := do
  if !s.inFlow && !s.keyAllowed then none
  else return (← (s.openBlockHere .blockTable).dropKey).punctuation .key (!s.inFlow)

/-- The colon after a key. -/
def takeValue (s : Lexer) : Option Lexer :=
  match s.key with
  | some k =>
    let announced := { s with key := none, tokens := s.tokens.insertIdxIfInBounds k.index .key }
    some <| (announced.openBlock k.spot.column k.index .blockTable).punctuation .value false
  | none =>
    if !s.inFlow && !s.keyAllowed then none
    else some <| (s.openBlockHere .blockTable).punctuation .value (!s.inFlow)

/-- The characters that may follow the name of an anchor directly. -/
def followsName (cs : List Char) : Bool :=
  match cs with
  | [] => true
  | c :: _ => isGap c || "?:,]\x7d%@`".toList.contains c

/-- An anchor or an alias. -/
def takeName (s : Lexer) (t : String → Token) : Option Lexer := do
  let s := (← s.markKey).allowKey false
  let (name, cursor) := (s.cursor.drop 1).span isWordChar
  if !name.isEmpty && followsName cursor.rest then
    return { s with cursor }.push (t (String.ofList name))
  else none

def takeTag (s : Lexer) : Option Lexer := do
  let s := (← s.markKey).allowKey false
  let (t, cursor) ← readTag s.inFlow s.cursor
  return { s with cursor }.push (.tag t)

def takeBlock (s : Lexer) (literal : Bool) : Option Lexer := do
  let s := (← s.dropKey).allowKey true
  let (text, cursor) ← readBlock literal s.margin (s.cursor.drop 1)
  return { s with cursor }.push
    (.scalar (String.ofList text) (if literal then .literal else .folded))

def takeQuoted (s : Lexer) (single : Bool) : Option Lexer := do
  let s := (← s.markKey).allowKey false
  let (text, cursor) ← Quoted.read single (s.cursor.drop 1)
  return { s with cursor }.push (.scalar (String.ofList text) .quoted)

/-- A plain scalar.  A line break after it allows a key. -/
def takePlain (s : Lexer) : Option Lexer := do
  let s ← s.markKey
  let p ← Plain.read s.inFlow s.margin s.cursor
  return { s with cursor := p.next, keyAllowed := p.brokeOff }.push
    (.scalar (String.ofList p.text) .plain)

/-- The characters that begin no plain scalar. -/
def indicators : List Char := "-?:,[]\x7b\x7d#&*!|>'\"%@`".toList

/-- Whether a plain scalar begins with a character.  Some indicators may, if no blank follows. -/
def startsPlain (inFlow : Bool) (c : Char) (cs : List Char) : Bool :=
  (!isGap c && !indicators.contains c)
    || (c == '-' && !cs.head?.any isBlank)
    || (!inFlow && (c == '?' || c == ':') && !endsWord cs)

/-- Whether a directive or a mark between documents is at the cursor. -/
def lineStart? (s : Lexer) : Option (Option Lexer) :=
  if s.column ≠ 0 then none
  else
    match s.cursor.rest with
    | '%' :: _ => some s.takeDirective
    | '-' :: '-' :: '-' :: rest => if endsWord rest then some (s.takeMark .documentStart) else none
    | '.' :: '.' :: '.' :: rest => if endsWord rest then some (s.takeMark .documentEnd) else none
    | _ => none

/-- The token that begins with a character. -/
def takeToken (s : Lexer) (c : Char) (cs : List Char) : Option Lexer :=
  match c with
  | '[' => s.openFlow .flowList
  | '\x7b' => s.openFlow .flowTable
  | ']' => s.closeFlow .flowListEnd
  | '\x7d' => s.closeFlow .flowTableEnd
  | ',' => s.takeComma
  | '*' => s.takeName .aliasOf
  | '&' => s.takeName .anchor
  | '!' => s.takeTag
  | '\'' => s.takeQuoted true
  | '"' => s.takeQuoted false
  | c =>
    if c = '-' ∧ endsWord cs then s.takeItem
    else if c = '?' ∧ (s.inFlow ∨ endsWord cs) then s.takeKey
    else if c = ':' ∧ (s.inFlow ∨ endsWord cs) then s.takeValue
    else if c = '|' ∧ !s.inFlow then s.takeBlock true
    else if c = '>' ∧ !s.inFlow then s.takeBlock false
    else if startsPlain s.inFlow c cs then s.takePlain
    else none

/-- Ends the stream: all blocks end, and no required key may be left open. -/
def finish (s : Lexer) : Option (Array Token) := (s.closeBlocks 0).dropKey.map (·.tokens)

/-- Reads the tokens that are left; every step takes a character, and `fuel` exceeds their
number. -/
def run : Nat → Lexer → Option (Array Token)
  | 0, _ => none
  | fuel + 1, s => do
    let s ← s.toNext.dropStaleKeys
    let s := s.closeBlocks (s.column + 1)
    match s.cursor.rest with
    | [] => s.finish
    | c :: cs => run fuel (← (s.lineStart?).getD (s.takeToken c cs))

end Lexer

/-- The tokens of a text. -/
def tokens? (text : String) : Option (List Token) :=
  if text.toList.all isAllowed then
    let cs := normalizeBreaks text.toList
    (Lexer.run (cs.length + 1) { cursor := { rest := cs } }).map (·.toList)
  else none

end Intake.Yaml
