import Intake.Chain
/-!
# Building chains

A `Schema` starts chains that look their steps up in one registry and, if they describe objects,
begin with one policy for unknown keys.  The functions on chains configure one option or add one
step of the standard processors.
-/

namespace Intake

structure Schema where
  registry : Registry
  unknownKeys : UnknownKeys := .strip

namespace Schema

def start (s : Schema) (kind : Kind) : Chain := .ofKind kind s.registry

def any (s : Schema) : Chain := s.start .any

def string (s : Schema) : Chain := s.start .string

def number (s : Schema) : Chain := s.start .number

def boolean (s : Schema) : Chain := s.start .boolean

def date (s : Schema) : Chain := s.start .date

/-- A list with no chain for its items yet. -/
def array (s : Schema) : Chain := s.start (.array none)

/-- An object with no fields yet. -/
def object (s : Schema) : Chain :=
  (s.start (.object [])).mapProps fun p => { p with unknownKeys := s.unknownKeys }

def reference (s : Schema) (path : Path) : Chain := s.start (.reference path)

def custom (s : Schema) (name : String) : Chain := s.start (.custom name)

end Schema

namespace Chain

/-! ## Presence, default and label -/

def required (c : Chain) : Chain := c.mapProps fun p => { p with required := true }

def optional (c : Chain) : Chain := c.mapProps fun p => { p with required := false }

def forbidden (c : Chain) : Chain := c.mapProps fun p => { p with forbidden := true }

def defaultTo (c : Chain) (value : Operand) : Chain :=
  c.mapProps fun p => { p with default? := some value }

def labelled (c : Chain) (label : String) : Chain :=
  c.mapProps fun p => { p with label := some label }

def withOutputFormat (c : Chain) (pattern : String) : Chain :=
  c.mapProps fun p => { p with outputFormat := some pattern }

def withUnknownKeys (c : Chain) (policy : UnknownKeys) : Chain :=
  c.mapProps fun p => { p with unknownKeys := policy }

/-! ## Steps of any kind -/

def equals (c : Chain) (expected : Operand) : Except BuildError Chain := c.step "equals" [expected]

def oneOf (c : Chain) (allowed : List Operand) : Except BuildError Chain := c.step "one-of" allowed

/-! ## Strings -/

def trim (c : Chain) : Except BuildError Chain := c.step "string/trim"

def lowercase (c : Chain) : Except BuildError Chain := c.step "string/lowercase"

def uppercase (c : Chain) : Except BuildError Chain := c.step "string/uppercase"

def notEmpty (c : Chain) : Except BuildError Chain := c.step "string/not-empty"

def minLength (c : Chain) (bound : Operand) : Except BuildError Chain :=
  c.step "string/min-length" [bound]

def maxLength (c : Chain) (bound : Operand) : Except BuildError Chain :=
  c.step "string/max-length" [bound]

/-! ## Numbers and truth values -/

def parseNumber (c : Chain) : Except BuildError Chain := c.addStep "number/parse" [] true

def minNumber (c : Chain) (bound : Operand) : Except BuildError Chain :=
  c.step "number/min" [bound]

def maxNumber (c : Chain) (bound : Operand) : Except BuildError Chain :=
  c.step "number/max" [bound]

def integer (c : Chain) : Except BuildError Chain := c.step "number/integer"

def parseBoolean (c : Chain) : Except BuildError Chain := c.addStep "boolean/parse" [] true

/-! ## Dates -/

def parseDate (c : Chain) : Except BuildError Chain := c.addStep "date/parse" [] true

def parseDateWith (c : Chain) (pattern : String) : Except BuildError Chain :=
  c.addStep "date/parse" [.literal (.str pattern)] true

def minDate (c : Chain) (bound : Operand) : Except BuildError Chain := c.step "date/min" [bound]

def maxDate (c : Chain) (bound : Operand) : Except BuildError Chain := c.step "date/max" [bound]

/-! ## Lists -/

/-- Describes the items; whatever the chain described before, it describes a list now. -/
def items (c : Chain) (item : Chain) : Chain := c.mapKind fun _ => .array (some item)

def minItems (c : Chain) (bound : Operand) : Except BuildError Chain :=
  c.step "array/min-items" [bound]

def maxItems (c : Chain) (bound : Operand) : Except BuildError Chain :=
  c.step "array/max-items" [bound]

def unique (c : Chain) : Except BuildError Chain := c.step "array/unique"

/-! ## Objects -/

/-- Adds a field or replaces the one of its name; a chain that describes no object stays as it
is. -/
def field (c : Chain) (name : String) (member : Chain) : Chain :=
  c.mapKind fun
    | .object fields => .object (Table.put name member fields)
    | kind => kind

/-- The names of the fields in the order of declaration. -/
def fieldNames (c : Chain) : List String :=
  match c.kind with
  | .object fields => Table.names fields
  | _ => []

end Chain

end Intake
