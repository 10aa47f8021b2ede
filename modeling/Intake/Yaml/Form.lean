import Intake.Yaml.Scalar
import Intake.Yaml.Node.Grammar
import Intake.Document.Form
/-!
# Forms of YAML

In YAML any scalar is text where text is wanted, whatever its tag, and an empty plain one is an
empty list or table.  A list does not stand for a record, and a choice may be a tag of the
document's own on a null.  Such a tag makes a list or a table no value.

An alias is replaced by the node it stands for, at the depth where it stands.  There is a limit to
how often that happens, which keeps nested aliases from growing without bound; a node that stands
inside itself is refused because it would be too deep.
-/

namespace Intake.Yaml

/-- Lists and tables may be nested this deep. -/
def maxDepth : Nat := 128

/-- Whether a scalar is a truth value where one is wanted: a plain one, or a literal one with the
tag. -/
def isTruth (tag : Option String) : Style → Bool
  | .plain => true
  | .literal => tag == some boolTag
  | _ => false

/-- Whether a scalar counts as left out.  A plain scalar with the tag of null must be null. -/
def isAbsent? (tag : Option String) (s : String) (style : Style) : Option Bool :=
  if style ≠ .plain then some false
  else
    match tag with
    | none => some (s.isEmpty || isNullWord s)
    | some t =>
      if t = nullTag then (if isNullWord s then some true else none) else some false

/-- The choice that a scalar makes: its text, or its own tag. -/
def choiceOf? (tag : Option String) (s : String) (style : Style) : Option String :=
  match tag.bind ownTag? with
  | none => some s
  | some name => if style = .plain ∧ (s.isEmpty ∨ isNullWord s) then some name else none

def scalarForm (tag : Option String) (s : String) (style : Style) : FormScalar :=
  { text := some s
    truth := if isTruth tag style then truthOf? s else none
    choice := choiceOf? tag s style
    value := scalarValue? tag s style
    absent := isAbsent? tag s style
    hollow := style = .plain ∧ s.isEmpty }

/-- The form of a document that holds nothing. -/
def emptyForm : Form :=
  .scalar
    { text := none, truth := none, choice := none, value := some .null, absent := some true
      hollow := true }

/-- What the key of an entry is: only a scalar can be one. -/
def keyOf? : Form → Option FormKey
  | .scalar s => some ⟨s.text, s.value⟩
  | _ => none

/-- Expanding counts the aliases that may still be replaced. -/
abbrev Expand := StateT Nat Option

/-- The node itself, or the node that an alias stands for. -/
def follow (d : Document) : Node → Expand Node
  | .aliasOf number => fun left =>
    match left with
    | 0 => none
    | left + 1 => (d.target? number).map (·, left)
  | n => pure n

/-- Whether a list or a table with a tag is a value. -/
def isValueTag (tag : Option String) : Bool := (tag.bind ownTag?).isNone

/-- The form of a node whose lists and tables are nested at most `depth` deep. -/
def expand (d : Document) : Nat → Node → Expand Form
  | _, .scalar mark text style => pure (.scalar (scalarForm mark.tag text style))
  | depth + 1, .list mark items => do
    let items ← items.mapM fun n => do expand d depth (← follow d n)
    return .list items false (isValueTag mark.tag)
  | depth + 1, .table mark entries => do
    let entries ← entries.mapM fun (k, v) => do
      let some key := keyOf? (← expand d depth (← follow d k)) | fun _ => none
      return (key, ← expand d depth (← follow d v))
    return .table entries none (isValueTag mark.tag)
  | _, _ => fun _ => none

/-- The form of a document. -/
def Document.form? (d : Document) : Option Form :=
  match d.root with
  | none => some emptyForm
  | some root => (expand d maxDepth root).run' (100 * d.size)

/-- The form of a YAML text. -/
def readForm (text : String) : Option Form := do
  (← Document.ofTokens? maxDepth (← tokens? text)).form?

end Intake.Yaml
