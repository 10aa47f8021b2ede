import Intake.Processor
import Intake.Text.Blank
import Intake.Text.Case
/-!
# Processors of strings

Lengths count characters.
-/

namespace Intake.Processor

/-- Transforms a string; anything else is rejected. -/
def onText (f : List Char → List Char) (value : Value) (_ : Arguments) : StepResult :=
  match value with
  | .str s => .pass (.str (String.ofList (f s.toList)))
  | _ => .reject value "string/type"

/-- Rejects the empty string. -/
def notEmpty (value : Value) (_ : Arguments) : StepResult :=
  match value with
  | .str s => if s.isEmpty then .reject value "string/not-empty" else .pass value
  | _ => .reject value "string/type"

/-- Compares the length of a string with a bound. -/
def checkLength (key boundName : String) (ok : Binary64 → Binary64 → Bool) (value : Value)
    (args : Arguments) : StepResult :=
  match value with
  | .str s =>
    match args.value? 0, args.bound? 0 with
    | some raw, some bound =>
      if ok (.ofInt s.length) bound then .pass value
      else .reject value key [(boundName, raw), ("actual", .ofNat s.length)]
    | _, _ => .pass value
  | _ => .reject value "string/type"

def atLeast (x bound : Binary64) : Bool := bound.le x

def atMost (x bound : Binary64) : Bool := x.le bound

def texts : List Processor :=
  [ .step "string/trim" (onText Text.trim)
  , .step "string/lowercase" (onText Text.lower)
  , .step "string/uppercase" (onText Text.upper)
  , .step "string/not-empty" notEmpty
  , .step "string/min-length" (checkLength "string/min-length" "min" atLeast)
  , .step "string/max-length" (checkLength "string/max-length" "max" atMost) ]

end Intake.Processor
