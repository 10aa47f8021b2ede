import Intake.Processor.Choice
import Intake.Processor.Texts
import Intake.Processor.Numbers
import Intake.Processor.Truth
import Intake.Processor.Dates
import Intake.Processor.Lists
/-!
# The standard processors
-/

namespace Intake.Registry

def standard : Registry :=
  register empty <|
    Processor.choice ++ Processor.texts ++ Processor.numbers ++ Processor.truth
      ++ Processor.dates ++ Processor.lists

end Intake.Registry
