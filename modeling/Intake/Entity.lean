import Intake.Chain
import Intake.Tracker
/-!
# Entities

An entity is what a chain is compiled to: the tree that runs.  It has a number of its own within
the compiled tree, keeps the chain it comes from, and knows every path that is looked up while it
runs and that somebody outside of it must have produced before.
-/

namespace Intake

/-- A step as it runs. -/
structure CompiledStep where
  processor : Processor
  args : List Operand

/-- A pipeline as it runs: the format step apart, since the kind's own check comes between it
and the other steps. -/
structure Pipeline where
  format : Option CompiledStep
  steps : List CompiledStep

namespace Pipeline

/-- Splits a pipeline at its format step, if it starts with one. -/
def ofSteps (steps : List Step) : Pipeline :=
  match steps.map fun s => CompiledStep.mk s.processor s.args with
  | [] => ⟨none, []⟩
  | first :: rest =>
    if first.processor.isFormat then ⟨some first, rest⟩ else ⟨none, first :: rest⟩

/-- The steps in the order in which they run. -/
def toList (p : Pipeline) : List CompiledStep := p.format.toList ++ p.steps

/-- The paths among the arguments. -/
def references (p : Pipeline) : List Path :=
  p.toList.flatMap fun s => s.args.filterMap (·.path?)

end Pipeline

/-- The kinds that are one check of the value. -/
inductive TypeCheck where
  | string
  | number
  | boolean
deriving DecidableEq, Repr

namespace TypeCheck

/-- The issue recorded on a value of another type. -/
def key : TypeCheck → String
  | string => "string/type"
  | number => "number/type"
  | boolean => "boolean/type"

def accepts : TypeCheck → Value → Bool
  | string, .str _ => true
  | number, .num _ => true
  | boolean, .bool _ => true
  | _, _ => false

end TypeCheck

/-- What a custom kind does around the pipeline: the issues it finds in the value before the
steps, the value it puts in place after them, and the paths it depends on. -/
structure CustomHooks where
  inspect : Option Value → List Issue := fun _ => []
  convert : Option Value → Option Value := id
  references : List Path := []

mutual

/-- A compiled chain. -/
inductive Entity where
  | mk (id : Nat) (source : Chain) (resolver : Option Entity) (body : Body)

/-- What an entity does after its presence rules: nothing, the pipeline of a reference, whose
value has been looked up before, or a pipeline inside the hooks of its kind. -/
inductive Body where
  | base
  | reference (path : Path) (pipeline : Pipeline)
  | behaviour (pipeline : Pipeline) (hooks : Hooks)

/-- What a kind does around the pipeline.  An object runs its members by a schedule and looks up
`escaping` outside of itself. -/
inductive Hooks where
  | pass
  | check (type : TypeCheck)
  | date (outputFormat : Option String)
  | array (items : Option Entity)
  | object (members : List (String × Entity)) (schedule : Schedule String)
      (unknownKeys : UnknownKeys) (escaping : List Path)
  | custom (hooks : CustomHooks)

end

namespace Entity

def id : Entity → Nat
  | mk id _ _ _ => id

def source : Entity → Chain
  | mk _ source _ _ => source

def resolver : Entity → Option Entity
  | mk _ _ resolver _ => resolver

def body : Entity → Body
  | mk _ _ _ body => body

/-- Drops every path that stands earlier in the list. -/
def distinct (paths : List Path) : List Path :=
  paths.foldl (fun done p => if p ∈ done then done else done ++ [p]) []

/-- The target of a reference. -/
def target? : Body → Option Path
  | .reference path _ => some path
  | _ => none

mutual

/-- Every path that the entity looks up while it runs or that escapes from inside of it. -/
def references : Entity → List Path
  | mk _ source _ body =>
    distinct <|
      (target? body).toList ++ (source.props.default?.bind (·.path?)).toList
        ++ bodyReferences body

def bodyReferences : Body → List Path
  | .base => []
  | .reference _ pipeline => pipeline.references
  | .behaviour pipeline hooks => pipeline.references ++ hookReferences hooks

/-- The paths that a kind's own processing needs from elsewhere. -/
def hookReferences : Hooks → List Path
  | .array (some items) => references items
  | .object _ _ _ escaping => escaping
  | .custom hooks => hooks.references
  | _ => []

end

end Entity

end Intake
