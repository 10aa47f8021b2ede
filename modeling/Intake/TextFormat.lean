import Intake.Yaml.Form
import Intake.Catalogue.Standard
/-!
# Text formats

Schema documents, message overlays and input values are written in JSON or in YAML.  The format
of a file is told by its extension: `.json`, in any case, is JSON, anything else YAML.
-/

namespace Intake

inductive TextFormat where
  | json
  | yaml
deriving DecidableEq, Repr

namespace TextFormat

/-- The last part of a file path, if it names a file. -/
def fileName (path : String) : Option (List Char) :=
  let parts := (Path.splitAt '/' path.toList).filter fun p => !p.isEmpty && p != ['.']
  parts.getLast?.filter (· != ['.', '.'])

/-- What follows the last point of a file name, unless the name begins with it. -/
def extension? (name : List Char) : Option (List Char) :=
  let after := name.reverse.takeWhile (· != '.')
  if after.length + 1 < name.length then some after.reverse else none

/-- The format of a file. -/
def ofPath (path : String) : TextFormat :=
  match (fileName path).bind extension? with
  | some ext => if ext.map Char.toLower = "json".toList then json else yaml
  | none => yaml

/-- The form of a text. -/
def form? (format : TextFormat) (text : String) : Option Form :=
  match format with
  | json => Json.readForm text
  | yaml => Yaml.readForm text

/-- The value of a text. -/
def value? (format : TextFormat) (text : String) : Option Value :=
  match format with
  | json => Json.readValue text
  | yaml => (Yaml.readForm text).bind Form.value?

/-- The value of a text; an error names its source. -/
def readValue (format : TextFormat) (source text : String) : Except DocumentError Value :=
  match format.value? text with
  | some v => .ok v
  | none => .error (.parse source)

/-- The schema document of a text. -/
def readDocument (format : TextFormat) (source text : String) :
    Except DocumentError SchemaDocument :=
  match (format.form? text).bind SchemaDocument.ofForm? with
  | some d => .ok d
  | none => .error (.parse source)

/-- The message catalogue of a text. -/
def readCatalogue (format : TextFormat) (source text : String) : Except DocumentError Catalogue :=
  match (format.form? text).bind Catalogue.ofForm? with
  | some c => .ok c
  | none => .error (.parse source)

end TextFormat

end Intake
