import Intake.Document
import Intake.Catalogue
import Intake.Json.Node
/-!
# Forms

A form is a written text as a document sees it, whichever notation it is written in.  What a
notation decides - which scalars are text, what counts as left out, whether a list may stand for
a record - is settled when the form is made; what a document decides is settled here, once.

* A scalar knows what it is where a text, a truth value, a choice or a value is wanted.
* A list may stand for a record, member by member, where its notation allows it.
* A table keeps its entries in order, with repetitions.  A key knows its text, and it knows what
  it is as a value, if it is one.
* A list or a table may be good for a document and still be no value.
-/

namespace Intake

/-- What a scalar is where a document wants something of it. -/
structure FormScalar where
  text : Option String
  truth : Option Bool
  choice : Option String
  value : Option Value
  /-- Whether it counts as left out where something is optional; it may be unfit there. -/
  absent : Option Bool
  /-- It stands for an empty list or table. -/
  hollow : Bool

/-- What the key of an entry is. -/
structure FormKey where
  text : Option String
  value : Option Value

inductive Form where
  | scalar (s : FormScalar)
  | list (items : List Form) (isRecord isValue : Bool)
  | table (entries : List (FormKey × Form)) (choice : Option String) (isValue : Bool)

namespace Form

def text? : Form → Option String
  | scalar s => s.text
  | _ => none

def truth? : Form → Option Bool
  | scalar s => s.truth
  | _ => none

/-- A choice is a word, or a table of a notation that writes choices so. -/
def choice? : Form → Option String
  | scalar s => s.choice
  | table _ choice _ => choice
  | list _ _ _ => none

/-- Whether something optional is left out. -/
def absent? : Form → Option Bool
  | scalar s => s.absent
  | _ => some false

/-- Reads something that may be left out. -/
def optional {α : Type} (read : Form → Option α) (f : Form) : Option (Option α) := do
  if ← f.absent? then return none else some <$> read f

/-! ## Values -/

mutual

/-- The value of a form; `key` tells what the keys of tables are. -/
def valueWith (key : FormKey → Option String) : Form → Option Value
  | scalar s => s.value
  | list items _ isValue => if isValue then .list <$> itemValues? key items else none
  | table entries _ isValue =>
    if isValue then Value.ofMembers <$> memberValues? key entries else none

def itemValues? (key : FormKey → Option String) : List Form → Option (List Value)
  | [] => some []
  | f :: fs => do return (← valueWith key f) :: (← itemValues? key fs)

def memberValues? (key : FormKey → Option String) :
    List (FormKey × Form) → Option (List (String × Value))
  | [] => some []
  | (k, f) :: rest => do
    return (← key k, ← valueWith key f) :: (← memberValues? key rest)

end

/-- The value of a form on its own: a key is its text. -/
def value? (f : Form) : Option Value := f.valueWith (·.text)

/-- The value of a form inside a document, whose keys must be strings. -/
def literal? (f : Form) : Option Value := f.valueWith (·.value.bind Value.asString?)

/-! ## Records -/

/-- Pairs the members of a record with the entries of a table; an entry that is no member, or
one that stands twice, is refused. -/
def membersOfEntries (names : List String) :
    List (FormKey × Form) → Option (List (String × Form))
  | [] => some []
  | (k, f) :: rest => do
    let name ← k.text
    let others ← membersOfEntries names rest
    if name ∈ names ∧ others.all (·.1 ≠ name) then return (name, f) :: others else none

/-- The members of a record of some names, in any order. -/
def members? (names : List String) : Form → Option (List (String × Form))
  | table entries _ _ => membersOfEntries names entries
  | list items true _ =>
    if items.length ≤ names.length then some (names.zip items) else none
  | list _ false _ => none
  | scalar s => if s.hollow then some [] else none

/-- The member of a name, or a default where it is missing. -/
def member {α : Type} (members : List (String × Form)) (name : String) (missing : Option α)
    (read : Form → Option α) : Option α :=
  match members.lookup name with
  | none => missing
  | some f => read f

/-- The items of a list. -/
def items? : Form → Option (List Form)
  | list items _ _ => some items
  | scalar s => if s.hollow then some [] else none
  | table _ _ _ => none

/-- The entries of a table whose keys are text. -/
def entries? : Form → Option (List (String × Form))
  | table entries _ _ => entries.mapM fun (k, f) => k.text.map (·, f)
  | scalar s => if s.hollow then some [] else none
  | list _ _ _ => none

/-! ## References -/

/-- Whether a key names the single member of a reference: by its name, or as its place. -/
def isRefKey (k : FormKey) : Bool :=
  match k.value with
  | some (.str s) => s == "ref"
  | some (.num (.int n)) => n == 0
  | _ => false

/-- The text of a scalar that is a string as a value. -/
def string? (f : Form) : Option String :=
  match f with
  | scalar s => s.value.bind Value.asString?
  | _ => none

/-- The dotted path of a reference: a table whose only member is one, or a list of one
string. -/
def reference? : Form → Option String
  | table [(k, f)] _ true => if isRefKey k then f.string? else none
  | list [f] _ true => f.string?
  | _ => none

/-- A reference, or else a value. -/
def argument? (f : Form) : Option ArgSpec :=
  match f.reference? with
  | some dotted => some (.reference dotted)
  | none => ArgSpec.literal <$> f.literal?

end Form

/-! ## Documents -/

def UnknownKeys.ofForm? (f : Form) : Option UnknownKeys := f.choice?.bind UnknownKeys.ofName?

/-- The policy of a record of options. -/
def UnknownKeys.ofOptions? (f : Form) : Option UnknownKeys := do
  let ms ← f.members? ["unknown_keys"]
  Form.member ms "unknown_keys" (some .strip) UnknownKeys.ofForm?

def StepSpec.ofForm? (f : Form) : Option StepSpec := do
  let ms ← f.members? ["name", "args", "prioritize"]
  let name ← Form.member ms "name" none Form.text?
  let args ← Form.member ms "args" (some []) fun f => f.items? >>= (·.mapM Form.argument?)
  let prioritize ← Form.member ms "prioritize" (some false) Form.truth?
  return { name, args, prioritize }

/-- The members of a field in the order of a record. -/
def FieldSpec.memberNames : List String :=
  ["type", "required", "forbidden", "default", "label", "steps", "items", "fields",
    "unknown_keys", "path", "output_format"]

/-- Reads a field whose fields are nested at most `depth` deep. -/
def FieldSpec.ofForm? : Nat → Form → Option FieldSpec
  | 0, _ => none
  | depth + 1, f => do
    let ms ← f.members? FieldSpec.memberNames
    let type ← Form.member ms "type" (some "any") Form.text?
    let required ← Form.member ms "required" (some false) Form.truth?
    let forbidden ← Form.member ms "forbidden" (some false) Form.truth?
    let default? ← Form.member ms "default" (some none) (Form.optional Form.argument?)
    let label ← Form.member ms "label" (some none) (Form.optional Form.text?)
    let steps ← Form.member ms "steps" (some []) fun f => f.items? >>= (·.mapM StepSpec.ofForm?)
    let items ← Form.member ms "items" (some none) (Form.optional (FieldSpec.ofForm? depth))
    let fields ← Form.member ms "fields" (some []) fun f => do
      let entries ← f.entries?
      let specs ← entries.mapM fun (name, f) => (FieldSpec.ofForm? depth f).map (name, ·)
      return Table.ofList specs
    let unknownKeys ←
      Form.member ms "unknown_keys" (some none) (Form.optional UnknownKeys.ofForm?)
    let path ← Form.member ms "path" (some none) (Form.optional Form.text?)
    let outputFormat ← Form.member ms "output_format" (some none) (Form.optional Form.text?)
    return .mk type required forbidden default? label steps items fields unknownKeys path
      outputFormat

/-- No notation nests deeper than this. -/
def Form.maxDepth : Nat := 200

def SchemaDocument.ofForm? (f : Form) : Option SchemaDocument := do
  let ms ← f.members? ["options", "schema"]
  let unknownKeys ← Form.member ms "options" (some .strip) UnknownKeys.ofOptions?
  let schema ← Form.member ms "schema" none (FieldSpec.ofForm? Form.maxDepth)
  return { unknownKeys, schema }

/-- A table of texts. -/
def Form.texts? (f : Form) : Option (Table String) := do
  let entries ← f.entries?
  return Table.ofList (← entries.mapM fun (k, f) => f.text?.map (k, ·))

def Catalogue.ofForm? (f : Form) : Option Catalogue := do
  let ms ← f.members? ["messages", "descriptions"]
  let messages ← Form.member ms "messages" (some []) Form.texts?
  let descriptions ← Form.member ms "descriptions" (some []) Form.texts?
  return { messages, descriptions }

/-! ## Forms of JSON -/

namespace Json

/-- A scalar of JSON: only a string is text, only `null` counts as left out. -/
def scalarForm (v : Value) : Form :=
  .scalar
    { text := v.asString?
      truth := match v with
        | .bool b => some b
        | _ => none
      choice := v.asString?
      value := some v
      absent := match v with
        | .null => some true
        | _ => some false
      hollow := false }

mutual

/-- The form of a node whose lists and objects are nested at most `depth` deep.  A list may stand
for a record, and an object of one member that is null for a choice. -/
def formAt (depth : Nat) : Node → Option Form
  | .null => some (scalarForm .null)
  | .bool b => some (scalarForm (.bool b))
  | .num n => n.map fun n => scalarForm (.num n)
  | .str s => s.map fun s => scalarForm (.str s)
  | .list items =>
    match depth with
    | 0 => none
    | depth + 1 => (formItems depth items).map (.list · true true)
  | .object members =>
    match depth with
    | 0 => none
    | depth + 1 => do
      let entries ← formMembers depth members
      let choice :=
        match members with
        | [(some k, .null)] => some k
        | _ => none
      return .table entries choice true

def formItems (depth : Nat) : List Node → Option (List Form)
  | [] => some []
  | n :: ns => do return (← formAt depth n) :: (← formItems depth ns)

def formMembers (depth : Nat) : List (Option String × Node) → Option (List (FormKey × Form))
  | [] => some []
  | (k, n) :: rest => do
    let key ← k
    let f ← formAt depth n
    let others ← formMembers depth rest
    return (⟨some key, some (.str key)⟩, f) :: others

end

/-- The form of a JSON text. -/
def readForm (text : String) : Option Form := do formAt maxDepth (← Node.read text.toList)

end Json

end Intake
