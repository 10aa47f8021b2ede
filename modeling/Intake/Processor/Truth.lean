import Intake.Processor
import Intake.Text.Blank
import Intake.Text.Case
/-!
# Processors of truth values
-/

namespace Intake.Processor

/-- The truth value of a word in lower case. -/
def truthOfWord (word : String) : Option Bool :=
  if word ∈ ["true", "yes", "on", "1"] then some true
  else if word ∈ ["false", "no", "off", "0"] then some false
  else none

/-- The truth value that a value spells: itself, the integers 1 and 0, or a word between blanks
in any case. -/
def truthOf : Value → Option Bool
  | .bool b => some b
  | .num (.int 1) => some true
  | .num (.int 0) => some false
  | .str s => truthOfWord (String.ofList (Text.lowerAscii (Text.trim s.toList)))
  | _ => none

/-- Turns a spelling into a truth value. -/
def parseTruth (value : Value) (_ : Arguments) : StepResult :=
  match truthOf value with
  | some b => .pass (.bool b)
  | none => .reject value "boolean/format"

def truth : List Processor := [.format "boolean/parse" parseTruth]

end Intake.Processor
