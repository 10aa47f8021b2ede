import Intake.Entity
import Intake.Date.Reader
/-!
# Runs

Processing an input is a run of an entity on a tracker.  The state of a run is the tree of
trackers, how deep kinds are nested at the moment and at most, the number of steps executed, and
a trace of what happened, the latest first.

An entity first claims the tracker, and a reference puts the value it looks up in place of what is
there.  Then the presence rules decide: an undefined value is an issue if the value is required,
and otherwise becomes the default; a defined value is an issue if it is forbidden; any other
defined value goes through the kind's behaviour.

A behaviour is the format step, the kind's own inspection of the value, the other steps, and the
kind's conversion of the result.  The first of these that records an issue on the tracker is the
last one that runs.
-/

namespace Intake

/-- Something that happened in a run. -/
inductive Event where
  /-- An entity began to process a tracker. -/
  | began (entity : Nat) (tracker : TrackerId)
  /-- The behaviour of an entity was entered. -/
  | entered (tracker : TrackerId)
  /-- A path was looked up for a tracker, and a tracker with a value was found or not. -/
  | lookedUp (tracker : TrackerId) (path : Path) (found : Option TrackerId)
      (value : Option Value)
  /-- A processor was called for a tracker. -/
  | called (tracker : TrackerId) (key : String) (value : Value) (args : Arguments)
deriving Repr

structure Run where
  tree : TrackerTree
  depth : Nat := 0
  maxDepth : Nat := 0
  steps : Nat := 0
  trace : List Event := []

/-- What a stage of processing does. -/
abbrev Stage := TrackerId → Run → Run

namespace Run

/-- A run on a fresh tree. -/
def ofValue (value : Option Value) : Run := { tree := .ofValue value }

def note (event : Event) (r : Run) : Run := { r with trace := event :: r.trace }

def mapTree (f : TrackerTree → TrackerTree) (r : Run) : Run := { r with tree := f r.tree }

def setValue (id : TrackerId) (value : Option Value) (r : Run) : Run :=
  r.mapTree (·.setValue id value)

def record (id : TrackerId) (issue : Issue) (r : Run) : Run := r.mapTree (·.record id issue)

def hasIssues (r : Run) (id : TrackerId) : Bool := r.tree.hasIssues id

def value? (r : Run) (id : TrackerId) : Option Value := r.tree.value? id

/-- Enters the behaviour of an entity. -/
def enter (id : TrackerId) (r : Run) : Run :=
  { r with depth := r.depth + 1, maxDepth := max r.maxDepth (r.depth + 1) }.note (.entered id)

/-- Leaves the behaviour of an entity. -/
def leave (r : Run) : Run := { r with depth := r.depth - 1 }

/-- Looks up a path for a tracker. -/
def lookUp (id : TrackerId) (path : Path) (r : Run) : Option Value × Run :=
  let found := r.tree.locateFrom id path
  let value := found.bind r.tree.value?
  (value, r.note (.lookedUp id path found value))

/-- Runs the second stage unless there are issues after the first. -/
def andThen (first second : Stage) : Stage := fun id r =>
  let r := first id r
  if r.hasIssues id then r else second id r

/-! ## Steps -/

/-- The values of some operands for a tracker. -/
def operands (id : TrackerId) : List Operand → Run → Arguments × Run
  | [], r => ([], r)
  | .literal v :: rest, r =>
    let (args, r) := operands id rest r
    (some v :: args, r)
  | .reference path :: rest, r =>
    let (value, r) := r.lookUp id path
    let (args, r) := operands id rest r
    (value :: args, r)

/-- What is recorded after a step: its issues, and if it failed without any, that it failed. -/
def issuesOf (key : String) (result : StepResult) : List Issue :=
  if result.fail && result.issues.isEmpty then
    [.of "generic/failed" [("processor", .str key)]]
  else result.issues

/-- Runs one step.  Its value is kept also when it fails. -/
def runStep (s : CompiledStep) : Stage := fun id r =>
  let (args, r) := r.operands id s.args
  let value := (r.value? id).getD .null
  let result := s.processor.run value args
  let r := { r with steps := r.steps + 1 }.note (.called id s.processor.key value args)
  (issuesOf s.processor.key result).foldl (fun r issue => r.record id issue)
    (r.setValue id (some result.value))

/-- Runs the steps one after the other, and then `last`, as long as there are no issues. -/
def runSteps (last : Stage) : List CompiledStep → Stage
  | [] => last
  | s :: rest => andThen (runStep s) (runSteps last rest)

/-- Runs a pipeline around the hooks of a kind. -/
def runPipeline (p : Pipeline) (inspect convert : Stage) : Stage :=
  let rest := andThen inspect (runSteps convert p.steps)
  match p.format with
  | some s => andThen (runStep s) rest
  | none => rest

/-! ## Kinds of one value -/

/-- Does nothing. -/
def pass : Stage := fun _ r => r

/-- Records an issue unless the value is accepted. -/
def check (key : String) (accepts : Value → Bool) : Stage := fun id r =>
  if (r.value? id).any accepts then r else r.record id (.of key [])

/-- Writes the date in the output format of its chain, if it has one that can write it. -/
def writeDate (format : Option String) : Stage := fun id r =>
  match format with
  | none => r
  | some pattern =>
    match ((r.value? id).bind Value.asString?).bind Date.readIso with
    | none => r
    | some d =>
      match d.write pattern with
      | none => r
      | some text => r.setValue id (some (.str text))

/-- Whether a value is a date of a pipeline. -/
def isDate (v : Value) : Bool := (v.asString?.bind Date.readIso).isSome

/-- Records the issues that a custom kind finds. -/
def inspectCustom (hooks : CustomHooks) : Stage := fun id r =>
  (hooks.inspect (r.value? id)).foldl (fun r issue => r.record id issue) r

/-- Puts the value of a custom kind in place. -/
def convertCustom (hooks : CustomHooks) : Stage := fun id r =>
  r.setValue id (hooks.convert (r.value? id))

/-! ## Lists -/

/-- Processes the items of a list, each in a child of its own addressed by its index.  Returns
the values that come out and the indexes of the items with issues. -/
def runItems (item : Stage) (id : TrackerId) : Nat → List Value → Run →
    List Value × List Nat × Run
  | _, [], r => ([], [], r)
  | i, v :: rest, r =>
    let (child, tree) := r.tree.attach id (toString i) (some v)
    let r := item child { r with tree }
    let out := (r.value? child).getD .null
    let bad := r.tree.hasIssuesBelow child
    let (outs, failing, r) := runItems item id (i + 1) rest r
    (out :: outs, if bad then i :: failing else failing, r)

/-- Checks that the value is a list and processes its items, if they have a chain. -/
def inspectList (item : Option Stage) : Stage := fun id r =>
  match r.value? id with
  | some (.list values) =>
    match item with
    | none => r
    | some item =>
      let (outs, failing, r) := runItems item id 0 values (r.setValue id none)
      let r := r.setValue id (some (.list outs))
      if failing.isEmpty then r
      else r.record id (.of "array/items" [("indexes", .list (failing.map .ofNat))])
  | _ => r.record id (.of "array/type" [])

/-! ## Objects -/

/-- Attaches a child for every member, with the value of its key if there is one. -/
def attachMembers (id : TrackerId) (names : List String) (input : List (String × Value))
    (t : TrackerTree) : TrackerTree :=
  names.foldl (fun t name => (t.attach id name (Value.lookup? name input)).2) t

/-- Runs one member on its child. -/
def runMember (members : Table Stage) (id : TrackerId) (name : String) (r : Run) : Run :=
  match Table.get? members name, (r.tree.get? id).bind (·.child? name) with
  | some member, some child => member child r
  | _, _ => r

/-- The children of the members, with their names, in the order of declaration. -/
def memberChildren (t : TrackerTree) (id : TrackerId) (names : List String) :
    List (String × TrackerId) :=
  names.filterMap fun name => ((t.get? id).bind (·.child? name)).map (name, ·)

/-- The members whose children have issues. -/
def failingMembers (t : TrackerTree) (children : List (String × TrackerId)) : List String :=
  (children.filter fun c => t.hasIssuesBelow c.2).map (·.1)

/-- The defined values of the members. -/
def memberValues (t : TrackerTree) (children : List (String × TrackerId)) :
    List (String × Value) :=
  children.filterMap fun (name, child) => (t.value? child).map (name, ·)

/-- Records an issue that names some keys, if there are any. -/
def recordNames (id : TrackerId) (key arg : String) (names : List String) (r : Run) : Run :=
  if names.isEmpty then r else r.record id (.of key [(arg, .list (names.map .str))])

/-- Puts the object together again after its members have run. -/
def assemble (policy : UnknownKeys) (names : List String) (unknown : List (String × Value)) :
    Stage := fun id r =>
  let children := memberChildren r.tree id names
  let failing := failingMembers r.tree children
  let known := memberValues r.tree children
  let output := if policy = .allow then known ++ unknown else known
  let rejected := if policy = .forbid then unknown.map (·.1) else []
  (r.setValue id (some (.ofMembers output)))
    |>.recordNames id "object/members" "fields" failing
    |>.recordNames id "object/unknown-keys" "keys" rejected

/-- Runs the members in the order of the schedule. -/
def runSchedule (schedule : Schedule String) (members : Table Stage) : Stage := fun id r =>
  match schedule.execute (runMember members id) r with
  | .ok (r, _) => r
  | .error e => r.record id (.of "object/schedule" [("reason", .str e.message)])

/-- Checks that the value is an object and processes its members. -/
def inspectObject (members : Table Stage) (schedule : Schedule String) (policy : UnknownKeys) :
    Stage := fun id r =>
  match r.value? id with
  | some (.object input) =>
    let names := Table.names members
    let unknown := input.filter fun m => !names.contains m.1
    let r := (r.setValue id none).mapTree (attachMembers id names input)
    andThen (runSchedule schedule members) (assemble policy names unknown) id r
  | _ => r.record id (.of "object/type" [])

end Run

/-! ## Entities -/

namespace Entity

mutual

/-- Processes the value of a tracker. -/
def process : Entity → Stage
  | mk entity source resolver body => fun id r =>
    let r := (r.mapTree (·.update id (·.claim entity))).note (.began entity id)
    let r := replace body id r
    let props := source.props
    match r.value? id with
    | none =>
      if props.required then r.record id (.of "generic/required" [])
      else substitute resolver props.default? id r
    | some _ =>
      if props.forbidden then r.record id (.of "generic/forbidden" [])
      else behave body id r

/-- A reference puts the value it looks up in place. -/
def replace : Body → Stage
  | .reference path _ => fun id r =>
    let (value, r) := r.lookUp id path
    r.setValue id value
  | _ => Run.pass

/-- Puts the default in place of an undefined value. -/
def substitute : Option Entity → Option Operand → Stage
  | some resolver, _ => process resolver
  | none, some (.literal value) => fun id r => r.setValue id (some value)
  | none, _ => Run.pass

/-- Runs what comes after the presence rules, one level deeper. -/
def behave : Body → Stage
  | .base => Run.pass
  | .reference _ pipeline => fun id r =>
    (Run.runPipeline pipeline Run.pass Run.pass id (r.enter id)).leave
  | .behaviour pipeline hooks => fun id r =>
    (Run.runPipeline pipeline (inspect hooks) (convert hooks) id (r.enter id)).leave

/-- What a kind does before the steps. -/
def inspect : Hooks → Stage
  | .pass => Run.pass
  | .check type => Run.check type.key type.accepts
  | .date _ => Run.check "date/type" Run.isDate
  | .array items => Run.inspectList (itemStage items)
  | .object members schedule policy _ => Run.inspectObject (memberStages members) schedule policy
  | .custom hooks => Run.inspectCustom hooks

/-- What a kind does after the steps. -/
def convert : Hooks → Stage
  | .date format => Run.writeDate format
  | .custom hooks => Run.convertCustom hooks
  | _ => Run.pass

def itemStage : Option Entity → Option Stage
  | none => none
  | some items => some (process items)

def memberStages : List (String × Entity) → Table Stage
  | [] => []
  | (name, member) :: rest => (name, process member) :: memberStages rest

end

/-- Processes an input in a fresh tree. -/
def run (e : Entity) (input : Option Value) : Run := e.process TrackerTree.root (.ofValue input)

end Entity

end Intake
