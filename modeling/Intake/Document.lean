import Intake.Chain.Builder
import Intake.Json.Printer
/-!
# Schema documents

A schema document describes a tree of chains declaratively.  `FieldSpec.build` turns it into one;
`SchemaDocument.toValue` is its normal written form.

A type is `any`, `string`, `number`, `boolean`, `date`, `array`, `object`, `ref`, or `custom:`
and a name.  Format steps may be listed anywhere: they are placed first.  An option that a type
does not use is an error, and so is a type that does not exist.
-/

namespace Intake

/-- A step argument or a default as written: a dotted path or a value. -/
inductive ArgSpec where
  | reference (dotted : String)
  | literal (value : Value)
deriving Repr

namespace ArgSpec

def operand : ArgSpec → Operand
  | reference dotted => .reference (.ofDotted dotted)
  | literal v => .literal v

def toValue : ArgSpec → Value
  | reference dotted => .object [("ref", .str dotted)]
  | literal v => v

end ArgSpec

structure StepSpec where
  name : String
  args : List ArgSpec := []
  prioritize : Bool := false
deriving Repr

/-- One field of a schema document. -/
inductive FieldSpec where
  | mk (type : String) (required forbidden : Bool) (default? : Option ArgSpec)
      (label : Option String) (steps : List StepSpec) (items : Option FieldSpec)
      (fields : List (String × FieldSpec)) (unknownKeys : Option UnknownKeys)
      (path : Option String) (outputFormat : Option String)

structure SchemaDocument where
  unknownKeys : UnknownKeys := .strip
  schema : FieldSpec

/-! ## Errors -/

/-- What can be wrong with a document, a catalogue or an input file. -/
inductive DocumentError where
  | parse (source : String)
  | unknownType (location type : String)
  | missingPath (location : String)
  | unusedOption (location option type : String)
  | build (error : BuildError)
  | unreadable (path : String)
deriving DecidableEq, Repr

namespace DocumentError

def message : DocumentError → String
  | parse source => s!"cannot parse {source}"
  | unknownType location type => s!"unknown field type '{type}' at {location}"
  | missingPath location => s!"field of type 'ref' at {location} needs a 'path'"
  | unusedOption location option type =>
    s!"option '{option}' does not apply to type '{type}' at {location}"
  | build error =>
    let text := error.message
    s!"schema build error: {text}"
  | unreadable path => s!"cannot read '{path}'"

end DocumentError

/-! ## Building -/

namespace FieldSpec

def type : FieldSpec → String
  | mk type _ _ _ _ _ _ _ _ _ _ => type

/-- The name of a custom type, if the type is one. -/
def customName? (type : String) : Option String :=
  let start := "custom:".toList
  if start.isPrefixOf type.toList then some (String.ofList (type.toList.drop start.length))
  else none

/-- The first option that is set on a type that does not use it.  A custom type may use the
policy for unknown keys and the output format. -/
def unusedOption? : FieldSpec → Option String
  | mk type _ _ _ _ _ items fields unknownKeys path outputFormat =>
    let custom := (customName? type).isSome
    let options : List (String × Bool × Bool) :=
      [ ("items", items.isSome, type == "array")
      , ("fields", !fields.isEmpty, type == "object")
      , ("unknown_keys", unknownKeys.isSome, type == "object" || custom)
      , ("path", path.isSome, type == "ref")
      , ("output_format", outputFormat.isSome, type == "date" || custom) ]
    (options.find? fun o => o.2.1 && !o.2.2).map (·.1)

/-- The types that hold no other fields, by name. -/
def plainKind? : String → Option Kind
  | "any" => some .any
  | "string" => some .string
  | "number" => some .number
  | "boolean" => some .boolean
  | "date" => some .date
  | _ => none

/-- The chain of a type that holds no other fields. -/
def buildLeaf (schema : Schema) (location type : String) (path : Option String) :
    Except DocumentError Chain :=
  match plainKind? type with
  | some kind => .ok (schema.start kind)
  | none =>
    if type = "ref" then
      match path with
      | some dotted => .ok (schema.reference (.ofDotted dotted))
      | none => .error (.missingPath location)
    else
      match customName? type with
      | some name =>
        if name.isEmpty then .error (.unknownType location type) else .ok (schema.custom name)
      | none => .error (.unknownType location type)

/-- The chain with the presence rules and options of a field. -/
def configure (required forbidden : Bool) (default? : Option ArgSpec) (label : Option String)
    (unknownKeys : Option UnknownKeys) (outputFormat : Option String) (c : Chain) : Chain :=
  c.mapProps fun p =>
    { required, forbidden, default? := default?.map (·.operand)
      label := label <|> p.label
      unknownKeys := unknownKeys.getD p.unknownKeys
      outputFormat := outputFormat <|> p.outputFormat }

/-- Whether a processor of the registry is a format one. -/
def isFormat (registry : Registry) (name : String) : Bool :=
  (Table.get? registry name).any (·.isFormat)

/-- The chain with one more step; a format step goes to the front. -/
def addSpec (c : Chain) (s : StepSpec) : Except BuildError Chain :=
  c.addStep s.name (s.args.map (·.operand)) (s.prioritize || isFormat c.registry s.name)

/-- The chain with the steps in the order in which they are listed. -/
def addSteps (steps : List StepSpec) (c : Chain) : Except DocumentError Chain :=
  (steps.foldlM addSpec c).mapError DocumentError.build

mutual

/-- The chain of a field.  Errors name the field by its location in the document. -/
def build (schema : Schema) (location : String) : FieldSpec → Except DocumentError Chain
  | mk type required forbidden default? label steps items fields unknownKeys path outputFormat =>
    let spec :=
      mk type required forbidden default? label steps items fields unknownKeys path outputFormat
    match spec.unusedOption? with
    | some option => .error (.unusedOption location option type)
    | none => do
      let c ←
        if type = "array" then buildItems schema (location ++ ".items") items
        else if type = "object" then
          (buildFields schema (location ++ ".fields.") [] fields).map fun members =>
            schema.object.mapKind fun _ => .object members
        else buildLeaf schema location type path
      addSteps steps
        (configure required forbidden default? label unknownKeys outputFormat c)

/-- The chain of a list with a chain for its items, if they are described. -/
def buildItems (schema : Schema) (location : String) :
    Option FieldSpec → Except DocumentError Chain
  | none => .ok schema.array
  | some items => schema.array.items <$> build schema location items

/-- The members of an object after some that are there already. -/
def buildFields (schema : Schema) (location : String) (done : List (String × Chain)) :
    List (String × FieldSpec) → Except DocumentError (List (String × Chain))
  | [] => .ok done
  | (name, field) :: rest => do
    let member ← build schema (location ++ name) field
    buildFields schema location (Table.put name member done) rest

end

end FieldSpec

namespace SchemaDocument

/-- The chain of a document over the processors of a registry. -/
def build (d : SchemaDocument) (registry : Registry) : Except DocumentError Chain :=
  d.schema.build { registry, unknownKeys := d.unknownKeys } "schema"

end SchemaDocument

/-! ## The written form -/

/-- A member that is written only if there is something to write. -/
def optionalMember (name : String) (value : Option Value) : List (String × Value) :=
  value.toList.map (name, ·)

namespace StepSpec

def toValue (s : StepSpec) : Value :=
  .object <|
    ("name", .str s.name)
      :: optionalMember "args"
        (if s.args.isEmpty then none else some (.list (s.args.map (·.toValue))))
      ++ [("prioritize", .bool s.prioritize)]

end StepSpec

namespace FieldSpec

mutual

def toValue : FieldSpec → Value
  | mk type required forbidden default? label steps items fields unknownKeys path outputFormat =>
    .object <|
      [("type", .str type), ("required", .bool required), ("forbidden", .bool forbidden)]
        ++ optionalMember "default" (default?.map (·.toValue))
        ++ optionalMember "label" (label.map .str)
        ++ optionalMember "steps"
          (if steps.isEmpty then none else some (.list (steps.map (·.toValue))))
        ++ optionalMember "items" (itemsValue items)
        ++ optionalMember "fields"
          (if fields.isEmpty then none else some (.object (fieldsValue fields)))
        ++ optionalMember "unknown_keys" (unknownKeys.map fun p => .str p.name)
        ++ optionalMember "path" (path.map .str)
        ++ optionalMember "output_format" (outputFormat.map .str)

def itemsValue : Option FieldSpec → Option Value
  | none => none
  | some items => some (toValue items)

def fieldsValue : List (String × FieldSpec) → List (String × Value)
  | [] => []
  | (name, field) :: rest => (name, toValue field) :: fieldsValue rest

end

end FieldSpec

namespace SchemaDocument

/-- A document as a value: the members that are always written, then those that are set. -/
def toValue (d : SchemaDocument) : Value :=
  .object
    [ ("options", .object [("unknown_keys", .str d.unknownKeys.name)])
    , ("schema", d.schema.toValue) ]

end SchemaDocument

end Intake
