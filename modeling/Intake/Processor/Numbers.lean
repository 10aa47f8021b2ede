import Intake.Processor.Texts
import Intake.Number.Reading
/-!
# Processors of numbers

Bounds are compared as binary64 numbers.
-/

namespace Intake.Processor

/-- The number that a text spells between blanks: an integer of a signed 64-bit word, or else a
binary64 number. -/
def numberOfText (s : String) : Option Number :=
  let cs := Text.trim s.toList
  match Number.readInt64 cs with
  | some n => some (.int n)
  | none => (Number.readReal cs).map .real

/-- Turns numeric text into a number. -/
def parseNumber (value : Value) (_ : Arguments) : StepResult :=
  match value with
  | .num _ => .pass value
  | .str s =>
    match numberOfText s with
    | some n => .pass (.num n)
    | none => .reject value "number/format"
  | _ => .reject value "number/format"

/-- Compares a number with a bound. -/
def checkNumber (key boundName : String) (ok : Binary64 → Binary64 → Bool) (value : Value)
    (args : Arguments) : StepResult :=
  match value with
  | .num n =>
    match args.value? 0, args.bound? 0 with
    | some raw, some bound =>
      if ok n.toBinary64 bound then .pass value else .reject value key [(boundName, raw)]
    | _, _ => .pass value
  | _ => .reject value "number/type"

/-- Rejects a number with a fractional part. -/
def wholeNumber (value : Value) (_ : Arguments) : StepResult :=
  match value with
  | .num (.int _) => .pass value
  | .num (.real x) => if x.isWhole then .pass value else .reject value "number/integer"
  | _ => .reject value "number/type"

def numbers : List Processor :=
  [ .format "number/parse" parseNumber
  , .step "number/min" (checkNumber "number/min" "min" atLeast)
  , .step "number/max" (checkNumber "number/max" "max" atMost)
  , .step "number/integer" wholeNumber ]

end Intake.Processor
