import Intake.Processor.Texts
/-!
# Processors of lists
-/

namespace Intake.Processor

/-- Compares the number of items with a bound. -/
def checkCount (key boundName : String) (ok : Binary64 → Binary64 → Bool) (value : Value)
    (args : Arguments) : StepResult :=
  match value with
  | .list items =>
    match args.value? 0, args.bound? 0 with
    | some raw, some bound =>
      if ok (.ofInt items.length) bound then .pass value
      else .reject value key [(boundName, raw), ("actual", .ofNat items.length)]
    | _, _ => .pass value
  | _ => .reject value "array/type"

/-- The first item that is equal to one before it. -/
def firstRepeated (before : List Value) : List Value → Option Value
  | [] => none
  | v :: vs => if before.contains v then some v else firstRepeated (v :: before) vs

/-- Rejects a list that holds a value twice. -/
def unique (value : Value) (_ : Arguments) : StepResult :=
  match value with
  | .list items =>
    match firstRepeated [] items with
    | some v => .reject value "array/unique" [("duplicate", v)]
    | none => .pass value
  | _ => .reject value "array/type"

def lists : List Processor :=
  [ .step "array/min-items" (checkCount "array/min-items" "min" atLeast)
  , .step "array/max-items" (checkCount "array/max-items" "max" atMost)
  , .step "array/unique" unique ]

end Intake.Processor
