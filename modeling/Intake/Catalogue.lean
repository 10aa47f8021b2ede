import Intake.Catalogue.Template
import Intake.Text.Blank
import Intake.Table
import Intake.Issue
import Intake.Chain
/-!
# Message catalogues

A catalogue has a template for every kind of issue and a description for every processor.  Texts
are only for people: processing never depends on them.

An overlay replaces entries one by one: its texts take the places of those with the same key, new
keys come at the end.
-/

namespace Intake

structure Catalogue where
  messages : Table String := []
  descriptions : Table String := []
deriving Repr

namespace Catalogue

def empty : Catalogue := {}

/-- The catalogue with the entries of another in place. -/
def overlay (c other : Catalogue) : Catalogue :=
  { messages := Table.extend c.messages other.messages
    descriptions := Table.extend c.descriptions other.descriptions }

/-! ## Issues -/

mutual

/-- The text of a value in a message: strings without quotes, items separated by commas. -/
def messageText : Value → String
  | .str s => s
  | .list items => ", ".intercalate (messageTexts items)
  | v => Json.compact v

def messageTexts : List Value → List String
  | [] => []
  | v :: vs => messageText v :: messageTexts vs

end

/-- The message of an issue, or its key if there is no template for it. -/
def render (c : Catalogue) (issue : Issue) : String :=
  match Table.get? c.messages issue.key with
  | some template =>
    Template.fill template fun name => (Value.lookup? name issue.args).map messageText
  | none => issue.key

/-- The message of an issue after its path; the root is called `value`. -/
def renderLocated (c : Catalogue) (e : LocatedIssue) : String :=
  let path := if e.path.isEmpty then "value" else e.path
  path ++ ": " ++ c.render e.issue

/-! ## Chains -/

/-- The text of a step argument in a description. -/
def operandText : Operand → String
  | .literal v => Json.compact v
  | .reference p => p.display

/-- What a name in a description stands for: all arguments, or the one at a place. -/
def argumentText (args : List String) (name : String) : Option String :=
  if name = "args" then some (", ".intercalate args)
  else do args[← Template.placeOf? name.toList]?

/-- The description of a step. -/
def describeStep (c : Catalogue) (s : Step) : String :=
  let args := s.args.map operandText
  let text :=
    match Table.get? c.descriptions s.key with
    | some template => Template.fill template (argumentText args)
    | none => if args.isEmpty then s.key else s.key ++ " " ++ ", ".intercalate args
  String.ofList (Text.trimEnd text.toList)

/-- What a chain describes, in its first line. -/
def kindText : Kind → String
  | .reference path => path.display
  | kind => kind.tag.display

/-- The options of a chain, in its first line. -/
def propsText (p : Props) : String :=
  (p.label.elim "" fun label => " \"" ++ label ++ "\"")
    ++ (if p.required then ", required" else "")
    ++ (if p.forbidden then ", forbidden" else "")
    ++ (p.default?.elim "" fun d => ", default " ++ operandText d)
    ++ (p.outputFormat.elim "" fun f => ", output " ++ f)

def indent (depth : Nat) : String := String.ofList (List.replicate (2 * depth) ' ')

mutual

/-- The lines of a chain: one for itself, one for each step, and those of its items or
fields. -/
def describeAt (c : Catalogue) (name : String) (depth : Nat) : Chain → List String
  | .mk kind props pipeline _ =>
    (indent depth ++ name ++ ": " ++ kindText kind ++ propsText props)
      :: pipeline.map (fun s => indent depth ++ "  - " ++ c.describeStep s)
      ++ c.describeKind (depth + 1) kind

def describeKind (c : Catalogue) (depth : Nat) : Kind → List String
  | .array (some items) => c.describeAt "[]" depth items
  | .object fields => c.describeFields depth fields
  | _ => []

def describeFields (c : Catalogue) (depth : Nat) : List (String × Chain) → List String
  | [] => []
  | (name, field) :: rest => c.describeAt name depth field ++ c.describeFields depth rest

end

/-- One line for each chain and each step of a tree of chains. -/
def describe (c : Catalogue) (chain : Chain) : List String := c.describeAt "value" 0 chain

/-- A catalogue as a value. -/
def toValue (c : Catalogue) : Value :=
  let texts := fun (t : Table String) => Value.object (t.map fun (k, s) => (k, .str s))
  .object [("messages", texts c.messages), ("descriptions", texts c.descriptions)]

end Catalogue

end Intake
