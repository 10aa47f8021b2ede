import Intake.Chain
/-!
# Equality of chains

Two chains are the same when they describe the same value: kind, options and pipeline agree.  The
registry does not count, nor does the order in which an object's fields were declared.
-/

namespace Intake

namespace Chain

def samePipeline : List Step → List Step → Bool
  | [], [] => true
  | a :: as, b :: bs => a.same b && samePipeline as bs
  | _, _ => false

mutual

def same : Chain → Chain → Bool
  | mk kind props pipeline _, other =>
    sameKind kind other.kind && props.same other.props && samePipeline pipeline other.pipeline

def sameKind : Kind → Kind → Bool
  | .array none, .array none => true
  | .array (some c), .array (some d) => same c d
  | .object fields, .object others => fields.length == others.length && sameFields fields others
  | .reference p, .reference q => p == q
  | .any, .any => true
  | .string, .string => true
  | .number, .number => true
  | .boolean, .boolean => true
  | .date, .date => true
  | .custom m, .custom n => m == n
  | _, _ => false

/-- Whether every field has an equal one of its name among others. -/
def sameFields : List (String × Chain) → List (String × Chain) → Bool
  | [], _ => true
  | (name, c) :: rest, others =>
    (match others.lookup name with
      | some d => same c d
      | none => false) && sameFields rest others

end

end Chain

end Intake
