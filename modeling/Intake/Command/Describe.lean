import Intake.Command.Files
/-!
# Describing a schema

The command `describe` answers one line for each chain and each step of a schema.
-/

namespace Intake.Command

/-- The names of the files. -/
structure DescribeRequest where
  schema : String
  messages : Option String := none
deriving Repr

/-- Describes a schema. -/
def describe (files : Table String) (request : DescribeRequest) : Except Failure String := do
  let document ← loadSchema files request.schema
  let catalogue ← loadCatalogue files request.messages
  let chain ← build document
  return lines (catalogue.describe chain)

end Intake.Command
