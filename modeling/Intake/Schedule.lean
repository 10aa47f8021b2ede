import Intake.Table
/-!
# Schedules

A schedule orders named operations so that every producer runs before each of its consumers.

An edge that would close a cycle is refused when it is linked, so an order always exists.  The
order takes, again and again, the first node in order of registration whose producers have all
been taken.  It is kept until a node or an edge is added.
-/

namespace Intake

/-- What can be wrong with a schedule. -/
inductive ScheduleError where
  | duplicateNode (key : String)
  | unknownNode (key : String)
  | cycle (producer consumer : String)
  | stalled (remaining : List String)
deriving DecidableEq, Repr

namespace ScheduleError

def message : ScheduleError → String
  | duplicateNode key => s!"duplicate scheduler node '{key}'"
  | unknownNode key => s!"unknown scheduler node '{key}'"
  | cycle producer consumer =>
    s!"dependency cycle: '{producer}' -> '{consumer}' closes a loop"
  | stalled remaining =>
    let names := ", ".intercalate remaining
    s!"scheduler stalled with {remaining.length} unordered node(s): {names}"

end ScheduleError

/-- Nodes with an operation each, if they have one; edges from a producer to a consumer; and the
order, if it has been computed since the last change. -/
structure Schedule (α : Type) where
  nodes : Table (Option α) := []
  edges : List (String × String) := []
  cached : Option (List String) := none
deriving Repr

namespace Schedule

variable {α : Type}

def empty : Schedule α := {}

def contains (g : Schedule α) (key : String) : Bool := Table.contains g.nodes key

/-- Registers a new node. -/
def create (g : Schedule α) (key : String) (operation : Option α) :
    Except ScheduleError (Schedule α) :=
  if g.contains key then .error (.duplicateNode key)
  else .ok { g with nodes := g.nodes ++ [(key, operation)], cached := none }

/-- The operation of the node under `key`, if it is registered. -/
def operation? (g : Schedule α) (key : String) : Option α :=
  (Table.get? g.nodes key).join

/-- Registers a node unless it is there; an operation, if given, replaces the node's. -/
def obtain (g : Schedule α) (key : String) (operation : Option α) : Schedule α :=
  if g.contains key then
    match operation with
    | none => g
    | some f => { g with nodes := Table.put key (some f) g.nodes }
  else { g with nodes := g.nodes ++ [(key, operation)], cached := none }

/-! ## Reachability -/

/-- The consumers of a key, in the order of their edges. -/
def consumers (edges : List (String × String)) (key : String) : List String :=
  (edges.filter (·.1 == key)).map (·.2)

theorem length_consumers_le (edges : List (String × String)) (key : String) :
    (consumers edges key).length ≤ edges.length := by
  simpa [consumers] using List.length_filter_le _ edges

/-- Depth-first search: `stack` is still to be looked at, `unseen` has not been looked at yet.
A key that is looked at leaves `unseen` and puts its consumers on the stack. -/
def search (edges : List (String × String)) (target : String) (unseen : List String) :
    List String → Bool
  | [] => false
  | key :: stack =>
    if key = target then true
    else if _h : key ∈ unseen then
      search edges target (unseen.erase key) (consumers edges key ++ stack)
    else search edges target unseen stack
termination_by stack => unseen.length * (edges.length + 1) + stack.length
decreasing_by
  · have := length_consumers_le edges key
    have hlen := List.length_erase_of_mem _h
    have hpos := List.length_pos_of_mem _h
    have : unseen.length = (unseen.erase key).length + 1 := by omega
    simp only [this, List.length_append, List.length_cons, Nat.add_mul]
    omega
  · simp

/-- Whether the edges lead from `start` to `target`, in no step or more. -/
def reaches (edges : List (String × String)) (start target : String) : Bool :=
  search edges target (start :: edges.map (·.2)).eraseDups [start]

/-! ## Linking -/

/-- Records that `producer` runs before `consumer`. -/
def link (g : Schedule α) (producer consumer : String) : Except ScheduleError (Schedule α) :=
  if !g.contains producer then .error (.unknownNode producer)
  else if !g.contains consumer then .error (.unknownNode consumer)
  else if (producer, consumer) ∈ g.edges then .ok g
  else if producer = consumer ∨ reaches g.edges consumer producer then
    .error (.cycle producer consumer)
  else .ok { g with edges := g.edges ++ [(producer, consumer)], cached := none }

/-! ## The order -/

/-- Each key with those of its producers that have not been taken. -/
def waiting (g : Schedule α) : Table (List String) :=
  (Table.names g.nodes).map fun key => (key, (g.edges.filter (·.2 == key)).map (·.1))

/-- Takes a key: it waits no longer, and nobody waits for it. -/
def take (key : String) (pending : Table (List String)) : Table (List String) :=
  (pending.eraseP (·.1 == key)).map fun (k, producers) => (k, producers.erase key)

/-- Takes the first key that waits for nothing until no key is left. -/
def settle (pending : Table (List String)) : Except ScheduleError (List String) :=
  match _h : pending.find? (·.2.isEmpty) with
  | some (key, _) => return key :: (← settle (take key pending))
  | none => if pending.isEmpty then .ok [] else .error (.stalled (Table.names pending))
termination_by pending.length
decreasing_by
  have hm := List.mem_of_find?_eq_some _h
  have hlen := List.length_eraseP_of_mem (p := fun e : String × List String => e.1 == key) hm
    (by simp)
  have hpos := List.length_pos_of_mem hm
  simp only [take, List.length_map]
  omega

/-- The order of the nodes as they are now, and the schedule that keeps it. -/
def order (g : Schedule α) : Except ScheduleError (List String × Schedule α) :=
  match g.cached with
  | some keys => .ok (keys, g)
  | none => do
    let keys ← settle g.waiting
    return (keys, { g with cached := some keys })

/-- Applies the operations in order to a context, and the schedule that keeps the order. -/
def execute {γ : Type} (g : Schedule α) (apply : α → γ → γ) (context : γ) :
    Except ScheduleError (γ × Schedule α) := do
  let (keys, g) ← g.order
  let run := fun context key =>
    match g.operation? key with
    | some f => apply f context
    | none => context
  return (keys.foldl run context, g)

end Schedule

end Intake
