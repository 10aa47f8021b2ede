import Intake.Processor
/-!
# Equality and choice

Processors for values of any kind.
-/

namespace Intake.Processor

/-- Passes a value equal to the first argument. -/
def equals (value : Value) (args : Arguments) : StepResult :=
  match args.value? 0 with
  | some expected =>
    if value == expected then .pass value
    else .reject value "generic/equals" [("expected", expected)]
  | none => .pass value

/-- The values that a choice allows: those of a single list, or else the arguments that are
there. -/
def allowed : Arguments → List Value
  | [some (.list items)] => items
  | args => args.filterMap id

/-- Passes a value that is allowed; a choice of nothing passes all. -/
def oneOf (value : Value) (args : Arguments) : StepResult :=
  let options := allowed args
  if options.isEmpty || options.contains value then .pass value
  else .reject value "generic/one-of" [("allowed", .list options)]

def choice : List Processor := [.step "equals" equals, .step "one-of" oneOf]

end Intake.Processor
