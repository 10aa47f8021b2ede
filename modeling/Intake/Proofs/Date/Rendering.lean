import Intake.Date.Writer
/-!
# Patterns for dates

A pattern can be written for a plain date if each of its parts is about the day (`canWrite`), and
then it can be written for every date.  Such a pattern has no invalid part; the reverse does not
hold, since a pattern may ask for a time of day:

    (d.write pattern).isSome = canWrite pattern        canWrite pattern → isPattern pattern
-/

namespace Intake.Date

/-- Whether a number is one of a plain date. -/
def Figure.isOfDay : Figure → Bool
  | .hour | .hourOfHalf | .minute | .second | .nanosecond | .timestamp => false
  | _ => true

/-- Whether a name is one of a plain date. -/
def Wording.isOfDay : Wording → Bool
  | .shortMonth | .longMonth | .shortWeekday | .longWeekday => true
  | _ => false

/-- Whether a part asks for nothing that a plain date does not have. -/
def Part.isOfDay : Part → Bool
  | .literal _ | .blanks _ => true
  | .figure f _ => f.isOfDay
  | .wording w => w.isOfDay
  | .invalid => false

/-- Whether a pattern asks for nothing that a plain date does not have. -/
def canWrite (pattern : String) : Bool := (readPattern pattern).all Part.isOfDay

theorem isSome_writePart (d : Date) (part : Part) : (writePart d part).isSome = part.isOfDay := by
  cases part with
  | figure f p => cases f <;> rfl
  | wording w => cases w <;> rfl
  | _ => rfl

/-- Which date it is does not matter. -/
theorem isSome_write (d : Date) (pattern : String) :
    (d.write pattern).isSome = canWrite pattern := by
  have hparts : ∀ parts : List Part,
      (parts.mapM (writePart d)).isSome = parts.all Part.isOfDay := by
    intro parts
    induction parts with
    | nil => rfl
    | cons part rest ih =>
      rw [List.all_cons, ← ih, ← isSome_writePart d, List.mapM_cons]
      cases writePart d part <;> cases rest.mapM (writePart d) <;> rfl
  rw [canWrite, ← hparts, write]
  cases (readPattern pattern).mapM (writePart d) <;> rfl

theorem isPattern_of_canWrite {pattern : String} (h : canWrite pattern = true) :
    isPattern pattern = true := by
  rw [isPattern, Bool.not_eq_true', List.contains_eq_mem, decide_eq_false_iff_not]
  exact fun hinvalid => Bool.false_ne_true (List.all_eq_true.1 h .invalid hinvalid)

end Intake.Date
