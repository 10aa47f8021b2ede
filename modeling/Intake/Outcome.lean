import Intake.Run
/-!
# Outcomes

What a finished run says about its input: the final value, the issues, and the report that has
both.
-/

namespace Intake

/-- The summary of a run. -/
structure Report where
  valid : Bool
  value : Option Value
  issues : List LocatedIssue

namespace Report

/-- A report as a value; an undefined value is left out. -/
def toValue (r : Report) : Value :=
  .object <|
    ("valid", .bool r.valid) :: (r.value.toList.map fun v => ("value", v))
      ++ [("errors", .list (r.issues.map (·.toValue)))]

end Report

namespace Run

/-- The value of the root. -/
def finalValue (r : Run) : Option Value := r.value? TrackerTree.root

/-- The issues of the root itself. -/
def rootIssues (r : Run) : List Issue := ((r.tree.get? TrackerTree.root).map (·.issues)).getD []

/-- Every issue with its path. -/
def allIssues (r : Run) : List LocatedIssue := r.tree.collect TrackerTree.root

/-- Whether no tracker that is reached from the root has an issue. -/
def isValid (r : Run) : Bool := !r.tree.hasIssuesBelow TrackerTree.root

def report (r : Run) : Report := ⟨r.isValid, r.finalValue, r.allIssues⟩

/-- The counters of a run as a value. -/
def counters (r : Run) : Value :=
  .object [("depth", .ofNat r.depth), ("max_depth", .ofNat r.maxDepth),
    ("steps_executed", .ofNat r.steps)]

end Run

end Intake
