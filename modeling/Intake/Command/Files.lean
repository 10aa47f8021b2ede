import Intake.TextFormat
import Intake.Processor.Standard
/-!
# Files of a command

A command is given the texts of the files it names.  What goes wrong in a file is reported with
what the file was read for; what is wrong with the schema itself is reported in its own words.
-/

namespace Intake.Command

/-- Why a command fails. -/
inductive Failure where
  /-- A file could not be read or understood. -/
  | loading (purpose name : String) (cause : DocumentError)
  /-- The schema document describes no chain. -/
  | building (error : DocumentError)
  /-- The chain cannot be compiled. -/
  | compiling (error : BuildError)
deriving DecidableEq, Repr

namespace Failure

def message : Failure → String
  | loading purpose name _ => s!"loading {purpose} {name}"
  | building error => error.message
  | compiling error => error.message

/-- What went wrong, whichever file it was found in. -/
def cause : Failure → DocumentError
  | loading _ _ cause => cause
  | building error => error
  | compiling error => .build error

end Failure

/-- How a text of a format is read; errors name the source of the text. -/
abbrev TextReader (α : Type) := TextFormat → String → String → Except DocumentError α

/-- Reads a file in the format that its name tells. -/
def readFile {α : Type} (files : Table String) (read : TextReader α) (name : String) :
    Except DocumentError α :=
  match Table.get? files name with
  | some text => read (TextFormat.ofPath name) name text
  | none => .error (.unreadable name)

/-- Reads a file for a purpose. -/
def load {α : Type} (files : Table String) (purpose : String) (read : TextReader α)
    (name : String) : Except Failure α :=
  (readFile files read name).mapError (Failure.loading purpose name)

def loadSchema (files : Table String) (name : String) : Except Failure SchemaDocument :=
  load files "schema" TextFormat.readDocument name

def loadInput (files : Table String) (name : String) : Except Failure Value :=
  load files "input" TextFormat.readValue name

/-- The standard messages, under an overlay if there is one. -/
def loadCatalogue (files : Table String) : Option String → Except Failure Catalogue
  | none => .ok .standard
  | some name =>
    Catalogue.standard.overlay <$> load files "message overlay" TextFormat.readCatalogue name

/-- The chain of a document over the standard processors. -/
def build (d : SchemaDocument) : Except Failure Chain :=
  (d.build .standard).mapError .building

/-- Each text in a line of its own. -/
def lines (texts : List String) : String := String.join (texts.map (· ++ "\n"))

end Intake.Command
