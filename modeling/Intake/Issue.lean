import Intake.Json.Printer
/-!
# Issues

An issue is one thing that is wrong with the data: a namespaced key such as `string/min-length`
and named arguments, sorted by name.  Issues are recorded, never thrown; what is wrong with a
schema is a `BuildError`.
-/

namespace Intake

structure Issue where
  key : String
  args : List (String × Value) := []
deriving Repr

namespace Issue

/-- An issue from arguments in any order. -/
def of (key : String) (args : List (String × Value)) : Issue := ⟨key, Value.sortMembers args⟩

/-- The key, and the arguments if there are any. -/
def display (e : Issue) : String :=
  if e.args.isEmpty then e.key else e.key ++ " " ++ Json.compact (.object e.args)

/-- The members of an issue in a written report. -/
def members (e : Issue) : List (String × Value) :=
  ("key", .str e.key) :: (if e.args.isEmpty then [] else [("args", .object e.args)])

end Issue

/-- An issue with the dotted path, from the root, of the value it was recorded on. -/
structure LocatedIssue where
  path : String
  issue : Issue
deriving Repr

namespace LocatedIssue

def members (e : LocatedIssue) : List (String × Value) :=
  ("path", .str e.path) :: e.issue.members

def toValue (e : LocatedIssue) : Value := .object e.members

end LocatedIssue

end Intake
