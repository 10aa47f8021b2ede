import Intake.Path
import Intake.Issue
import Intake.Table
/-!
# Trackers

A tracker carries one value through processing, with the issues recorded on it.  The trackers of
one run form a tree: the root tracks the input, and every member or item that is processed gets a
child, addressed by the member's name or the item's index.

The tree numbers its trackers in the order of their creation, the root `0`, and a tracker's
parent and children are kept as numbers.  A parent is always created before its children; the
walks below step only to a smaller number on the way up and to a larger one on the way down, so
they end whatever the tree holds.

Attaching a segment again points it at the new tracker; the old one stays in the tree but is no
longer reached from above.
-/

namespace Intake

abbrev TrackerId := Nat

/-- A value in progress.  No value means undefined, which null is not. -/
structure Tracker where
  value : Option Value := none
  entity : Option Nat := none
  parent : Option TrackerId := none
  segment : Option String := none
  children : Table TrackerId := []
  issues : List Issue := []
deriving Repr

namespace Tracker

def isUndefined (t : Tracker) : Bool := t.value.isNone

def hasIssues (t : Tracker) : Bool := !t.issues.isEmpty

/-- The child that a segment addresses. -/
def child? (t : Tracker) (segment : String) : Option TrackerId := Table.get? t.children segment

/-- Records the owner.  The first owner stays. -/
def claim (entity : Nat) (t : Tracker) : Tracker :=
  { t with entity := t.entity <|> some entity }

def setValue (value : Option Value) (t : Tracker) : Tracker := { t with value }

/-- Records an issue after those that are there. -/
def record (issue : Issue) (t : Tracker) : Tracker := { t with issues := t.issues ++ [issue] }

end Tracker

structure TrackerTree where
  trackers : Array Tracker
deriving Repr

namespace TrackerTree

/-- A tree whose root tracks a value. -/
def ofValue (value : Option Value) : TrackerTree := ⟨#[{ value }]⟩

def root : TrackerId := 0

def size (t : TrackerTree) : Nat := t.trackers.size

def get? (t : TrackerTree) (id : TrackerId) : Option Tracker := t.trackers[id]?

/-- The value of a tracker. -/
def value? (t : TrackerTree) (id : TrackerId) : Option Value := (t.get? id).bind (·.value)

/-- Whether a tracker has issues of its own. -/
def hasIssues (t : TrackerTree) (id : TrackerId) : Bool := (t.get? id).any (·.hasIssues)

/-- Changes one tracker. -/
def update (t : TrackerTree) (id : TrackerId) (f : Tracker → Tracker) : TrackerTree :=
  ⟨t.trackers.modify id f⟩

def setValue (t : TrackerTree) (id : TrackerId) (value : Option Value) : TrackerTree :=
  t.update id (·.setValue value)

def record (t : TrackerTree) (id : TrackerId) (issue : Issue) : TrackerTree :=
  t.update id (·.record issue)

/-- Creates a child under `parent` and points the segment at it. -/
def attach (t : TrackerTree) (parent : TrackerId) (segment : String) (value : Option Value) :
    TrackerId × TrackerTree :=
  let id := t.size
  let grown : TrackerTree :=
    ⟨t.trackers.push { value, parent := some parent, segment := some segment }⟩
  (id, grown.update parent fun p => { p with children := Table.put segment id p.children })

/-! ## Addresses -/

/-- Follows segments down from a tracker. -/
def follow (t : TrackerTree) (start : TrackerId) (segments : List String) : Option TrackerId :=
  segments.foldlM (fun id segment => (t.get? id).bind (·.child? segment)) start

/-- The tracker and those above it, outward to the root. -/
def outward (t : TrackerTree) (id : TrackerId) : List TrackerId :=
  match t.get? id with
  | none => []
  | some tracker =>
    id :: match tracker.parent with
      | none => []
      | some parent => if _h : parent < id then t.outward parent else []
termination_by id

/-- The tracker that a path leads to from a scope.  The innermost tracker, from the scope
outward, that has a child named by the first segment decides: the whole path is followed from
there, and if it leads nowhere the search does not go on. -/
def locate (t : TrackerTree) (scope : Option TrackerId) (path : Path) : Option TrackerId := do
  let first ← path.first?
  let outer := (scope.map t.outward).getD []
  let enclosing ← outer.find? fun id => ((t.get? id).bind (·.child? first)).isSome
  t.follow enclosing path.segments

/-- The tracker that a path leads to for a tracker: the search starts at its parent. -/
def locateFrom (t : TrackerTree) (id : TrackerId) (path : Path) : Option TrackerId := do
  t.locate (← t.get? id).parent path

/-- The value at a path, seen from a scope. -/
def resolveIn (t : TrackerTree) (scope : Option TrackerId) (path : Path) : Option Value :=
  (t.locate scope path).bind t.value?

/-- The value at a path, seen from a tracker. -/
def resolve (t : TrackerTree) (id : TrackerId) (path : Path) : Option Value :=
  (t.locateFrom id path).bind t.value?

/-- The segments from the root down to a tracker. -/
def pathOf (t : TrackerTree) (id : TrackerId) : List String :=
  ((t.outward id).filterMap fun i => (t.get? i).bind (·.segment)).reverse

/-! ## Issues below a tracker -/

/-- The tracker and all that are reached from it, each before its children, children in the
order of their segments. -/
def descend (t : TrackerTree) (id : TrackerId) : List TrackerId :=
  match t.get? id with
  | none => []
  | some tracker =>
    id :: tracker.children.flatMap fun entry =>
      if _h : id < entry.2 ∧ entry.2 < t.size then t.descend entry.2 else []
termination_by t.size - id
decreasing_by exact Nat.sub_lt_sub_left (Nat.lt_trans _h.1 _h.2) _h.1

/-- Whether a tracker or one below it has issues. -/
def hasIssuesBelow (t : TrackerTree) (id : TrackerId) : Bool :=
  match t.get? id with
  | none => false
  | some tracker =>
    tracker.hasIssues || tracker.children.any fun entry =>
      if _h : id < entry.2 ∧ entry.2 < t.size then t.hasIssuesBelow entry.2 else false
termination_by t.size - id
decreasing_by exact Nat.sub_lt_sub_left (Nat.lt_trans _h.1 _h.2) _h.1

/-- The issues of one tracker with its path. -/
def located (t : TrackerTree) (id : TrackerId) : List LocatedIssue :=
  match t.get? id with
  | none => []
  | some tracker =>
    if tracker.hasIssues then
      let path := Path.dotted (t.pathOf id)
      tracker.issues.map fun issue => { path, issue }
    else []

/-- The issues of a tracker and of all below it. -/
def collect (t : TrackerTree) (id : TrackerId) : List LocatedIssue :=
  (t.descend id).flatMap t.located

end TrackerTree

end Intake
