import Intake.Yaml.Node
import Intake.Yaml.Token.Stream
/-!
# The grammar of nodes

Nodes are read from tokens by descent.  What is left out - an item after a dash, a key or the
value of a key - is an empty scalar.  A list may stand right below a key without being indented
further, and inside brackets a key and its value are a table of one entry.

Lists and tables nest at most as deep as the reader allows; every call takes a token or is the
last one before a call that does, so twice the number of tokens bounds the depth of the descent.
-/

namespace Intake.Yaml

/-- What is known while a document is read: the tokens that are left, what the handles of tags
stand for, the names of anchors with their numbers, and where the numbers lead. -/
structure Source where
  tokens : List Token
  handles : List (String × String) := []
  names : List (String × Nat) := []
  places : List (Nat × Nat) := []
  anchored : Nat := 0

abbrev Read := StateT Source Option

namespace Read

def fail {α : Type} : Read α := fun _ => none

/-- The next token. -/
def peek : Read (Option Token) := fun s => some (s.tokens.head?, s)

/-- Takes the next token. -/
def skip : Read Unit := fun s => some ((), { s with tokens := s.tokens.drop 1 })

/-- Whether the next token is one of some. -/
def isNext (ts : List Token) : Read Bool := do
  return (← peek).any ts.contains

/-- Takes the next token, which must be a certain one. -/
def expect (t : Token) : Read Unit := do
  if ← isNext [t] then skip else fail

/-- The number of names that are known. -/
def nameCount (names : List (String × Nat)) : Nat := (names.map (·.1)).eraseDups.length

/-- Sets an anchor on the node that comes; its place among the anchored nodes. -/
def setAnchor (name : String) : Read Nat := fun s =>
  let number := nameCount s.names
  some (s.anchored,
    { s with
      names := (name, number) :: s.names
      places := (number, s.anchored) :: s.places
      anchored := s.anchored + 1 })

/-- The number of an anchor that has been set. -/
def numberOf (name : String) : Read Nat := fun s => (s.names.lookup name).map (·, s)

/-- The text that a tag stands for. -/
def resolveTag (t : TagToken) : Read String := fun s =>
  if t.handle.isEmpty then some (t.suffix, s)
  else (s.handles.lookup t.handle).map fun start => (start ++ t.suffix, s)

def anchor? : Read (Option Nat) := do
  match ← peek with
  | some (.anchor name) =>
    skip
    some <$> setAnchor name
  | _ => return none

def tag? : Read (Option String) := do
  match ← peek with
  | some (.tag t) =>
    skip
    some <$> resolveTag t
  | _ => return none

/-- An anchor and a tag in either order, if they are there. -/
def mark : Read Mark := do
  match ← anchor? with
  | some anchored => return { tag := ← tag?, anchored }
  | none =>
    let tag ← tag?
    return { tag, anchored := ← anchor? }

/-- A node with nothing but what stands in front of it. -/
def leftOut (mark : Mark) : Read Node :=
  if mark = {} then fail else return .scalar mark "" .plain

/-- Reads what a list or a table holds one level deeper. -/
def nested {α : Type} (read : Nat → Read α) : Nat → Read α
  | 0 => fail
  | depth + 1 => read depth

mutual

/-- A node of at most `depth` levels.  In a block it may be a block, and where a key or its value
may stand a list that is not indented further. -/
def node (fuel depth : Nat) (block indentless : Bool) : Read Node :=
  match fuel with
  | 0 => fail
  | fuel + 1 => do
    if let some (.aliasOf name) ← peek then
      skip
      return .aliasOf (← numberOf name)
    let mark ← mark
    match ← peek, block, indentless with
    | some (.scalar text style), _, _ => skip; return .scalar mark text style
    | some .flowList, _, _ => skip; return .list mark (← nested (flowItems fuel true) depth)
    | some .flowTable, _, _ => skip; return .table mark (← nested (flowEntries fuel true) depth)
    | some .blockList, true, _ => skip; return .list mark (← nested (blockItems fuel) depth)
    | some .blockTable, true, _ => skip; return .table mark (← nested (blockEntries fuel) depth)
    | some .item, _, true => return .list mark (← nested (indentlessItems fuel) depth)
    | _, _, _ => leftOut mark
termination_by structural fuel

/-- A node, or an empty scalar if a token comes that ends it. -/
def nodeBefore (ends : List Token) (fuel depth : Nat) (block indentless : Bool) : Read Node :=
  match fuel with
  | 0 => fail
  | fuel + 1 => do
    if ← isNext ends then return .empty else node fuel depth block indentless
termination_by structural fuel

/-- The value after a key, if a colon comes. -/
def valueBefore (ends : List Token) (fuel depth : Nat) (block indentless : Bool) : Read Node :=
  match fuel with
  | 0 => fail
  | fuel + 1 => do
    if ← isNext [.value] then
      skip
      nodeBefore ends fuel depth block indentless
    else return .empty
termination_by structural fuel

/-- The items of a block. -/
def blockItems (fuel depth : Nat) : Read (List Node) :=
  match fuel with
  | 0 => fail
  | fuel + 1 => do
    if ← isNext [.blockEnd] then
      skip
      return []
    expect .item
    let item ← nodeBefore [.item, .blockEnd] fuel depth true false
    return item :: (← blockItems fuel depth)
termination_by structural fuel

/-- The items of a list that is not indented; any other token ends it. -/
def indentlessItems (fuel depth : Nat) : Read (List Node) :=
  match fuel with
  | 0 => fail
  | fuel + 1 => do
    if ← isNext [.item] then
      skip
      let item ← nodeBefore [.item, .key, .value, .blockEnd] fuel depth true false
      return item :: (← indentlessItems fuel depth)
    else return []
termination_by structural fuel

/-- The entries of a block. -/
def blockEntries (fuel depth : Nat) : Read (List (Node × Node)) :=
  match fuel with
  | 0 => fail
  | fuel + 1 => do
    if ← isNext [.blockEnd] then
      skip
      return []
    expect .key
    let ends := [.key, .value, .blockEnd]
    let key ← nodeBefore ends fuel depth true true
    let value ← valueBefore ends fuel depth true true
    return (key, value) :: (← blockEntries fuel depth)
termination_by structural fuel

/-- The items between brackets, after the first one with a comma in front of each; a comma may
follow the last one. -/
def flowItems (fuel : Nat) (first : Bool) (depth : Nat) : Read (List Node) :=
  match fuel with
  | 0 => fail
  | fuel + 1 => do
    if ← isNext [.flowListEnd] then
      skip
      return []
    if !first then expect .comma
    if ← isNext [.flowListEnd] then
      skip
      return []
    let item ←
      if ← isNext [.key] then
        skip
        pure (.table {} [← nested (flowPair fuel) depth])
      else node fuel depth false false
    return item :: (← flowItems fuel false depth)
termination_by structural fuel

/-- A key and its value as an item, after the announcement of the key.  A key that is left out
takes the next token with it. -/
def flowPair (fuel depth : Nat) : Read (Node × Node) :=
  match fuel with
  | 0 => fail
  | fuel + 1 => do
    let key ←
      if ← isNext [.value, .comma, .flowListEnd] then
        skip
        pure .empty
      else node fuel depth false false
    let value ← valueBefore [.comma, .flowListEnd] fuel depth false false
    return (key, value)
termination_by structural fuel

/-- The entries between braces, after the first one with a comma in front of each; a comma may
follow the last one.  An entry that is no key has the empty value. -/
def flowEntries (fuel : Nat) (first : Bool) (depth : Nat) : Read (List (Node × Node)) :=
  match fuel with
  | 0 => fail
  | fuel + 1 => do
    if ← isNext [.flowTableEnd] then
      skip
      return []
    if !first then expect .comma
    if ← isNext [.flowTableEnd] then
      skip
      return []
    let entry ←
      if ← isNext [.key] then
        skip
        let key ← nodeBefore [.value, .comma, .flowTableEnd] fuel depth false false
        let value ← valueBefore [.comma, .flowTableEnd] fuel depth false false
        pure (key, value)
      else pure (← node fuel depth false false, .empty)
    return entry :: (← flowEntries fuel false depth)
termination_by structural fuel

end

/-! ## Documents -/

/-- The handles that need no directive. -/
def standardHandles : List (String × String) := [("!", "!"), ("!!", "tag:yaml.org,2002:")]

/-- The handles of the directives at the start of a document; `versions` counts the versions.
Neither a version nor a handle may be given twice, and the version is 1.1 or 1.2. -/
def directives (versions : Nat) (handles : List (String × String)) :
    List Token → Option (List (String × String) × List Token)
  | .directive (.version major minor) :: ts =>
    if versions = 0 ∧ major = 1 ∧ (minor = 1 ∨ minor = 2) then directives 1 handles ts else none
  | .directive (.handle handle start) :: ts =>
    if (handles.lookup handle).isSome then none
    else directives versions ((handle, start) :: handles) ts
  | ts => some (handles, ts)

def isDirective : Token → Bool
  | .directive _ => true
  | _ => false

/-- Whether the content of a document that has been started is left out. -/
def endsDocument : Option Token → Bool
  | none => true
  | some t => isDirective t || t == .documentStart || t == .documentEnd

/-- The root of a document after its start. -/
def content (fuel depth : Nat) : Read Node := do
  if endsDocument (← peek) then return .empty else node fuel depth true false

/-- The root of the only document of a stream, if there is one. -/
def root (fuel depth : Nat) : Read (Option Node) := fun s => do
  match s.tokens with
  | [] => return (none, s)
  | t :: _ =>
    if isDirective t || t == .documentStart then
      let (handles, tokens) ← directives 0 [] s.tokens
      match tokens with
      | .documentStart :: tokens =>
        some <$> content fuel depth |>.run { s with tokens, handles := handles ++ standardHandles }
      | _ => none
    else some <$> node fuel depth true false |>.run { s with handles := standardHandles }

end Read

/-- The document of some tokens, with at most `depth` levels of lists and tables.  Nothing but
ends of documents may follow it. -/
def Document.ofTokens? (depth : Nat) (tokens : List Token) : Option Document := do
  let (root, s) ← (Read.root (3 * tokens.length + 5) depth).run { tokens }
  if (s.tokens.dropWhile (· == .documentEnd)).isEmpty then
    return { root, places := s.places }
  else none

end Intake.Yaml
