import Intake.Schedule
/-!
# Build errors

What can be wrong with a schema: faults of the schema itself, never of the data.
-/

namespace Intake

inductive BuildError where
  | unknownProcessor (key : String)
  | misplacedFormatStep (key reason : String)
  | conflictingPresence (entity reason : String)
  | invalidOption (entity option reason : String)
  | schedule (error : ScheduleError)
deriving DecidableEq, Repr

namespace BuildError

def message : BuildError → String
  | unknownProcessor key => s!"unknown processor '{key}'"
  | misplacedFormatStep key reason =>
    s!"format step '{key}' must be the first step of the pipeline: {reason}"
  | conflictingPresence entity reason => s!"conflicting presence rules on {entity}: {reason}"
  | invalidOption entity option reason => s!"invalid option '{option}' on {entity}: {reason}"
  | schedule error =>
    let text := error.message
    s!"scheduling error: {text}"

end BuildError

end Intake
