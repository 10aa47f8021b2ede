import Intake.Entity
import Intake.Date.Pattern
/-!
# Compiling chains

Compilation numbers the entities from 0, each before its default resolver and that before its
items or members, and schedules the members of every object so that each runs after those it
refers to.

A path that a member looks up is ordered by its first segment.  If that names a sibling, the
sibling runs first.  If it is the object's own name in the enclosing object, the path comes back
in, and its second segment decides.  Any other path escapes: whoever encloses the object has to
order it.

Compilation fails for presence rules that contradict each other, for an option that cannot be
honoured, for members that depend on each other in a cycle, and where a custom kind refuses.
-/

namespace Intake

/-- What a custom kind is told about the place where it is compiled: the chain's display name,
its name as a member, and how many entities have been numbered, itself included. -/
structure CustomSite where
  displayName : String
  member : Option String
  issued : Nat

/-- How a custom kind is compiled. -/
abbrev CustomKind := CustomSite → Except BuildError CustomHooks

/-- The kinds that have a behaviour.  A chain of any other kind compiles to presence rules and
defaults alone. -/
structure Mapper where
  builtin : List KindTag
  custom : Table CustomKind := []

namespace Mapper

def empty : Mapper := { builtin := [] }

def standard : Mapper :=
  { builtin := [.any, .string, .number, .boolean, .date, .array, .object] }

/-- Whether a kind has a behaviour of the table. -/
def handles (m : Mapper) : KindTag → Bool
  | .custom name => Table.contains m.custom name
  | tag => m.builtin.contains tag

end Mapper

/-- Compilation counts the entities and may fail. -/
abbrev CompileM := StateT Nat (Except BuildError)

namespace CompileM

/-- Issues the next number. -/
def nextId : CompileM Nat := fun n => .ok (n, n + 1)

def issued : CompileM Nat := fun n => .ok (n, n)

def fail {α : Type} (e : BuildError) : CompileM α := fun _ => .error e

def ofExcept {α : Type} (r : Except BuildError α) : CompileM α := fun n => r.map (·, n)

end CompileM

namespace Chain

/-- Why presence rules contradict each other, if they do. -/
def presenceConflict? (p : Props) : Option String :=
  if p.required && p.forbidden then some "required and forbidden"
  else if p.forbidden && p.default?.isSome then some "forbidden with a default value"
  else none

def checkPresence (c : Chain) : Except BuildError Unit :=
  match presenceConflict? c.props with
  | some reason => .error (.conflictingPresence c.displayName reason)
  | none => .ok ()

/-- An output format must be a pattern. -/
def checkOutputFormat (c : Chain) : Except BuildError Unit :=
  match c.props.outputFormat with
  | some pattern =>
    if Date.isPattern pattern then .ok ()
    else
      .error (.invalidOption c.displayName "output_format"
        s!"'{pattern}' is not a valid strftime format")
  | none => .ok ()

end Chain

namespace Schedule

/-- A scheduling error is an error of the schema. -/
def lift {α : Type} (r : Except ScheduleError α) : Except BuildError α :=
  r.mapError BuildError.schedule

/-- A schedule with a node for each name, whose operation is the name. -/
def ofNames (names : List String) : Except ScheduleError (Schedule String) :=
  names.foldlM (fun g name => g.create name (some name)) Schedule.empty

/-- Where a path that a member looks up leads. -/
inductive Course where
  /-- The member orders it itself, or it leads nowhere. -/
  | free
  /-- The sibling has to run first. -/
  | after (producer : String)
  /-- It leads to the object that holds the member. -/
  | enclosing (own : String)
  /-- It leads out of the object. -/
  | escapes
deriving DecidableEq, Repr

/-- The course of a path of the member `name` of an object with some members, whose own name in
the enclosing object is `own`, if it has one. -/
def course (own : Option String) (members : List String) (name : String) (path : Path) : Course :=
  match path.segments with
  | [] => .escapes
  | first :: rest =>
    if first = name then .free
    else if first ∈ members then .after first
    else if own = some first then
      match rest with
      | second :: _ => if second ∈ members then .after second else .free
      | [] => .enclosing first
    else .escapes

/-- The schedule and the escaping paths after one more path of a member. -/
def linkPath (own : Option String) (members : List String) (name : String)
    (state : Schedule String × List Path) (path : Path) :
    Except ScheduleError (Schedule String × List Path) :=
  match course own members name path with
  | .free => .ok state
  | .after producer => (state.1.link producer name).map (·, state.2)
  | .enclosing first => .error (.cycle first name)
  | .escapes => .ok (if path ∈ state.2 then state else (state.1, state.2 ++ [path]))

/-- The schedule of an object's members, each with the paths it looks up, and the paths that
escape. -/
def ofMembers (own : Option String) (members : List (String × List Path)) :
    Except ScheduleError (Schedule String × List Path) := do
  let names := members.map (·.1)
  let nodes ← ofNames names
  let (linked, escaping) ← members.foldlM
    (fun state m => m.2.foldlM (linkPath own names m.1) state) (nodes, [])
  let (_, ordered) ← linked.order
  return (ordered, escaping)

end Schedule

namespace Mapper

/-- The entity that looks up a default. -/
def compileResolver (path : Path) : CompileM Entity := do
  return .mk (← CompileM.nextId) (.ofPath path) none (.reference path (.ofSteps []))

/-- The entity that looks up the default of a chain, if that is a path. -/
def compileDefault : Option Operand → CompileM (Option Entity)
  | some (.reference path) => some <$> compileResolver path
  | _ => return none

/-- The behaviour of a kind, or none if the table does not have it. -/
def behave (m : Mapper) (source : Chain) (tag : KindTag) (hooks : Hooks) : Body :=
  if m.handles tag then .behaviour (.ofSteps source.pipeline) hooks else .base

mutual

/-- Compiles a chain that is the member of that name of an object, or no member. -/
def compileChain (m : Mapper) : Chain → Option String → CompileM Entity
  | .mk kind props pipeline registry, member => do
    let source := Chain.mk kind props pipeline registry
    CompileM.ofExcept source.checkPresence
    let id ← CompileM.nextId
    let resolver ← compileDefault props.default?
    let body ← m.compileKind kind source member
    return .mk id source resolver body

/-- The body of a chain of a kind. -/
def compileKind (m : Mapper) : Kind → Chain → Option String → CompileM Body
  | .reference path, source, _ => return .reference path (.ofSteps source.pipeline)
  | .custom name, source, member => do
    match Table.get? m.custom name with
    | none => return .base
    | some kind =>
      let issued ← CompileM.issued
      let hooks ← CompileM.ofExcept (kind ⟨source.displayName, member, issued⟩)
      return .behaviour (.ofSteps source.pipeline) (.custom hooks)
  | .any, source, _ => return m.behave source .any .pass
  | .string, source, _ => return m.behave source .string (.check .string)
  | .number, source, _ => return m.behave source .number (.check .number)
  | .boolean, source, _ => return m.behave source .boolean (.check .boolean)
  | .date, source, _ =>
    if m.handles .date then do
      CompileM.ofExcept source.checkOutputFormat
      return m.behave source .date (.date source.props.outputFormat)
    else return .base
  | .array none, source, _ => return m.behave source .array (.array none)
  | .array (some items), source, _ =>
    if m.handles .array then do
      let items ← m.compileChain items none
      return m.behave source .array (.array (some items))
    else return .base
  | .object fields, source, member =>
    if m.handles .object then do
      let members ← m.compileMembers fields
      let paths := members.map fun (name, entity) => (name, entity.references)
      let (schedule, escaping) ←
        CompileM.ofExcept (Schedule.lift (Schedule.ofMembers member paths))
      return m.behave source .object
        (.object members schedule source.props.unknownKeys escaping)
    else return .base

/-- Compiles the members of an object in the order of declaration. -/
def compileMembers (m : Mapper) : List (String × Chain) → CompileM (List (String × Entity))
  | [] => return []
  | (name, field) :: rest => do
    let entity ← m.compileChain field (some name)
    let others ← m.compileMembers rest
    return (name, entity) :: others

end

/-- Compiles a chain, and counts the entities. -/
def compileCounting (m : Mapper) (c : Chain) : Except BuildError (Entity × Nat) :=
  (m.compileChain c none).run 0

/-- Compiles a chain. -/
def compile (m : Mapper) (c : Chain) : Except BuildError Entity :=
  (m.compileCounting c).map (·.1)

end Mapper

end Intake
