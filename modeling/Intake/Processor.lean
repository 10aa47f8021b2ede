import Intake.Issue
import Intake.Table
/-!
# Processors

A processor is a named pure function of a pipeline: from the current value and the arguments to a
value and the issues found.  An argument whose reference leads nowhere is absent, and a check
whose bound is absent passes.

A format processor turns raw input into the form that its kind of value has in a pipeline, so it
must come first there.
-/

namespace Intake

/-- What a processor returns.  The value counts also when the step fails. -/
structure StepResult where
  value : Value
  fail : Bool := false
  issues : List Issue := []
deriving Repr

namespace StepResult

/-- The value, with nothing to complain about. -/
def pass (value : Value) : StepResult := { value }

/-- The value with one issue. -/
def reject (value : Value) (key : String) (args : List (String × Value) := []) : StepResult :=
  { value, fail := true, issues := [Issue.of key args] }

/-- Whether something is wrong with the value. -/
def isFailure (r : StepResult) : Bool := r.fail || !r.issues.isEmpty

end StepResult

abbrev Arguments := List (Option Value)

structure Processor where
  key : String
  isFormat : Bool
  run : Value → Arguments → StepResult

namespace Processor

/-- A check or a transformation. -/
def step (key : String) (run : Value → Arguments → StepResult) : Processor := ⟨key, false, run⟩

/-- A format processor. -/
def format (key : String) (run : Value → Arguments → StepResult) : Processor := ⟨key, true, run⟩

/-- Processors are compared by name and role. -/
def same (a b : Processor) : Bool := a.key == b.key && a.isFormat == b.isFormat

end Processor

namespace Arguments

/-- The argument at a place, if it is there and its reference leads somewhere. -/
def value? (args : Arguments) (i : Nat) : Option Value := args[i]?.join

/-- The argument at a place as a number to compare with. -/
def bound? (args : Arguments) (i : Nat) : Option Binary64 :=
  ((value? args i).bind Value.asNumber?).map (·.toBinary64)

end Arguments

/-- The processors that a chain may name. -/
abbrev Registry := Table Processor

namespace Registry

def empty : Registry := []

/-- Adds processors, each in the place of one of the same name. -/
def register (registry : Registry) (processors : List Processor) : Registry :=
  Table.extend registry (processors.map fun p => (p.key, p))

/-- The names, sorted. -/
def sortedKeys (registry : Registry) : List String :=
  (Table.names registry).mergeSort (· ≤ ·)

end Registry

end Intake
