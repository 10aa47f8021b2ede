import Intake.Processor
import Intake.Date.Reader
/-!
# Processors of dates

In a pipeline a date is a string in the pattern `%Y-%m-%d`.
-/

namespace Intake.Processor

/-- The date of a value in a pipeline. -/
def dateOf (value : Value) : Option Date := value.asString?.bind Date.readIso

/-- The pattern that the first argument gives, or else that of pipelines. -/
def patternOf (args : Arguments) : String :=
  ((args.value? 0).bind Value.asString?).getD Date.isoPattern

/-- The date of a text between blanks, in a pattern or as a timestamp. -/
def dateOfText (pattern : String) (s : String) : Option Date :=
  let cs := Text.trim s.toList
  Date.read pattern cs <|> Date.readTimestamp cs

/-- Turns the text of a date into the form of pipelines. -/
def parseDate (value : Value) (args : Arguments) : StepResult :=
  let pattern := patternOf args
  match value.asString?.bind (dateOfText pattern) with
  | some d => .pass (.str d.iso)
  | none => .reject value "date/format" [("format", .str pattern)]

/-- Compares a date with a bound; a bound that is no date is none. -/
def checkDate (key boundName : String) (ok : Date → Date → Bool) (value : Value)
    (args : Arguments) : StepResult :=
  match dateOf value with
  | some d =>
    match args.value? 0, (args.value? 0).bind dateOf with
    | some raw, some bound =>
      if ok d bound then .pass value else .reject value key [(boundName, raw)]
    | _, _ => .pass value
  | none => .reject value "date/type"

def dates : List Processor :=
  [ .format "date/parse" parseDate
  , .step "date/min" (checkDate "date/min" "min" fun d bound => bound.le d)
  , .step "date/max" (checkDate "date/max" "max" fun d bound => d.le bound) ]

end Intake.Processor
