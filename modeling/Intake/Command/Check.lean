import Intake.Command.Files
import Intake.Entity.Compile
import Intake.Outcome
/-!
# Checking an input

The command `check` processes the value of an input file by the schema of another file.  As text
it answers the value that comes out, or one line for each issue; as JSON the report, with a
message for each issue.
-/

namespace Intake.Command

/-- How the outcome is shown. -/
inductive Layout where
  | text
  | json
deriving DecidableEq, Repr

def Layout.ofName? : String → Option Layout
  | "text" => some text
  | "json" => some json
  | _ => none

/-- The names of the files, and the layout of the answer. -/
structure CheckRequest where
  schema : String
  input : String
  messages : Option String := none
  layout : Layout := .text
deriving Repr

/-- Whether the input was valid, and what is shown. -/
structure CheckAnswer where
  valid : Bool
  output : String
deriving DecidableEq, Repr

/-- The value of a valid input. -/
def valueText : Option Value → String
  | some v => Json.pretty v
  | none => "undefined"

/-- The report with messages. -/
def reportValue (c : Catalogue) (r : Report) : Value :=
  let issue := fun (e : LocatedIssue) =>
    Value.object (e.members ++ [("message", .str (c.render e.issue))])
  .object <|
    ("valid", .bool r.valid) :: (r.value.toList.map fun v => ("value", v))
      ++ [("errors", .list (r.issues.map issue))]

/-- What is shown of a report. -/
def render (c : Catalogue) (layout : Layout) (r : Report) : CheckAnswer :=
  let output :=
    match layout with
    | .text => lines (if r.valid then [valueText r.value] else r.issues.map c.renderLocated)
    | .json => lines [Json.pretty (reportValue c r)]
  { valid := r.valid, output }

/-- Checks an input.  The schema is read first, then the input, then the messages. -/
def check (files : Table String) (request : CheckRequest) : Except Failure CheckAnswer := do
  let document ← loadSchema files request.schema
  let input ← loadInput files request.input
  let catalogue ← loadCatalogue files request.messages
  let chain ← build document
  let entity ← (Mapper.standard.compile chain).mapError Failure.compiling
  return render catalogue request.layout (entity.run (some input)).report

end Intake.Command
