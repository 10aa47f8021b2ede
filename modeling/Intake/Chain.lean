import Intake.Path
import Intake.Processor
import Intake.BuildError
/-!
# Chains

A chain describes one value: its kind, its presence rules and options, and the pipeline of steps
that check and transform it.  Chains of lists and objects hold the chains of their items and
members.

A chain is never changed; every configuring function gives a new one.  Steps are added at the end,
or at the front when prioritized.  A format step is always the first of its pipeline: `addStep`
refuses a placement that would break this.
-/

namespace Intake

/-- A step argument or a default: a fixed value, or a path looked up when it is needed. -/
inductive Operand where
  | literal (value : Value)
  | reference (path : Path)
deriving Repr

namespace Operand

def path? : Operand → Option Path
  | literal _ => none
  | reference p => some p

def same : Operand → Operand → Bool
  | literal a, literal b => a == b
  | reference p, reference q => p == q
  | _, _ => false

end Operand

/-- How an object treats input keys that are no members. -/
inductive UnknownKeys where
  | strip
  | allow
  | forbid
deriving DecidableEq, Repr

namespace UnknownKeys

def name : UnknownKeys → String
  | strip => "strip"
  | allow => "allow"
  | forbid => "forbid"

def ofName? : String → Option UnknownKeys
  | "strip" => some strip
  | "allow" => some allow
  | "forbid" => some forbid
  | _ => none

end UnknownKeys

/-- The presence rules and options of a chain. -/
structure Props where
  required : Bool := false
  forbidden : Bool := false
  default? : Option Operand := none
  label : Option String := none
  unknownKeys : UnknownKeys := .strip
  outputFormat : Option String := none
deriving Repr

namespace Props

def sameDefault : Option Operand → Option Operand → Bool
  | none, none => true
  | some a, some b => a.same b
  | _, _ => false

def same (a b : Props) : Bool :=
  a.required == b.required && a.forbidden == b.forbidden && sameDefault a.default? b.default?
    && a.label == b.label && a.unknownKeys == b.unknownKeys && a.outputFormat == b.outputFormat

end Props

/-- One entry of a pipeline. -/
structure Step where
  processor : Processor
  args : List Operand
  prioritize : Bool

namespace Step

def key (s : Step) : String := s.processor.key

def isFormat (s : Step) : Bool := s.processor.isFormat

/-- The paths among the arguments. -/
def references (s : Step) : List Path := s.args.filterMap (·.path?)

def sameArgs : List Operand → List Operand → Bool
  | [], [] => true
  | a :: as, b :: bs => a.same b && sameArgs as bs
  | _, _ => false

def same (a b : Step) : Bool :=
  a.processor.same b.processor && sameArgs a.args b.args && a.prioritize == b.prioritize

end Step

/-- Kinds without what they hold. -/
inductive KindTag where
  | any
  | string
  | number
  | boolean
  | date
  | array
  | object
  | reference
  | custom (name : String)
deriving DecidableEq, Repr

namespace KindTag

def display : KindTag → String
  | any => "any"
  | string => "string"
  | number => "number"
  | boolean => "boolean"
  | date => "date"
  | array => "array"
  | object => "object"
  | reference => "ref"
  | custom name => "custom:" ++ name

end KindTag

mutual

/-- What a chain describes.  A reference stands for the value at a path; a custom kind is given
its meaning when it is compiled. -/
inductive Kind where
  | any
  | string
  | number
  | boolean
  | date
  | array (items : Option Chain)
  | object (fields : List (String × Chain))
  | reference (path : Path)
  | custom (name : String)

inductive Chain where
  | mk (kind : Kind) (props : Props) (pipeline : List Step) (registry : Registry)

end

def Kind.tag : Kind → KindTag
  | .any => .any
  | .string => .string
  | .number => .number
  | .boolean => .boolean
  | .date => .date
  | .array _ => .array
  | .object _ => .object
  | .reference _ => .reference
  | .custom name => .custom name

namespace Chain

def kind : Chain → Kind
  | mk kind _ _ _ => kind

def props : Chain → Props
  | mk _ props _ _ => props

def pipeline : Chain → List Step
  | mk _ _ pipeline _ => pipeline

def registry : Chain → Registry
  | mk _ _ _ registry => registry

/-- A chain without options and steps, whose steps will be looked up in `registry`. -/
def ofKind (kind : Kind) (registry : Registry) : Chain := mk kind {} [] registry

/-- A reference outside of any registry. -/
def ofPath (path : Path) : Chain := ofKind (.reference path) Registry.empty

def tag (c : Chain) : KindTag := c.kind.tag

/-- The label, or the name of the kind. -/
def displayName (c : Chain) : String := c.props.label.getD c.tag.display

def mapProps (f : Props → Props) : Chain → Chain
  | mk kind props pipeline registry => mk kind (f props) pipeline registry

def mapKind (f : Kind → Kind) : Chain → Chain
  | mk kind props pipeline registry => mk (f kind) props pipeline registry

/-! ## Steps -/

/-- The first format step of a pipeline. -/
def formatStep? (pipeline : List Step) : Option Step := pipeline.find? (·.isFormat)

/-- Why a processor may not be added at the front or at the end of a pipeline, if it may not. -/
def misplacement? (pipeline : List Step) (p : Processor) (prioritize : Bool) :
    Option BuildError :=
  if p.isFormat then
    match formatStep? pipeline with
    | some existing =>
      let key := existing.key
      some (.misplacedFormatStep p.key s!"pipeline already starts with format step '{key}'")
    | none =>
      if !prioritize && !pipeline.isEmpty then
        some (.misplacedFormatStep p.key s!"declared after {pipeline.length} other step(s)")
      else none
  else if prioritize then
    (formatStep? pipeline).map fun existing =>
      let key := p.key
      .misplacedFormatStep existing.key s!"prioritized step '{key}' would run before it"
  else none

/-- The pipeline with one more step. -/
def place (pipeline : List Step) (s : Step) : List Step :=
  if s.prioritize then s :: pipeline else pipeline ++ [s]

/-- The chain with one more step, named by its processor. -/
def addStep (c : Chain) (key : String) (args : List Operand) (prioritize : Bool) :
    Except BuildError Chain :=
  match c with
  | mk kind props pipeline registry =>
    match Table.get? registry key with
    | none => .error (.unknownProcessor key)
    | some processor =>
      match misplacement? pipeline processor prioritize with
      | some e => .error e
      | none => .ok (mk kind props (place pipeline ⟨processor, args, prioritize⟩) registry)

/-- The chain with one more step at the end. -/
def step (c : Chain) (key : String) (args : List Operand := []) : Except BuildError Chain :=
  c.addStep key args false

end Chain

end Intake
