import Intake.Yaml.Token
/-!
# Nodes of YAML

A node is a scalar, a list, a table or an alias, which stands for the node that an anchor was set
on.  A document has one root node, or nothing.

Anchors are known by number.  A name takes the number of names that are known when it is set; set
again it takes a number anew, which the next new name takes too and then leads to the later node.
-/

namespace Intake.Yaml

/-- What may stand in front of a node: its tag, and its place among the anchored nodes. -/
structure Mark where
  tag : Option String := none
  anchored : Option Nat := none
deriving DecidableEq, Repr

inductive Node where
  | scalar (mark : Mark) (text : String) (style : Style)
  | list (mark : Mark) (items : List Node)
  | table (mark : Mark) (entries : List (Node × Node))
  | aliasOf (number : Nat)

namespace Node

/-- A scalar that was left out. -/
def empty : Node := scalar {} "" .plain

def mark : Node → Mark
  | scalar mark _ _ => mark
  | list mark _ => mark
  | table mark _ => mark
  | aliasOf _ => {}

mutual

/-- The size of a node: one for a scalar or an alias, two for a list or a table, and the sizes of
what it holds. -/
def size : Node → Nat
  | scalar _ _ _ => 1
  | aliasOf _ => 1
  | list _ items => 2 + sizeOfItems items
  | table _ entries => 2 + sizeOfEntries entries

def sizeOfItems : List Node → Nat
  | [] => 0
  | n :: ns => size n + sizeOfItems ns

def sizeOfEntries : List (Node × Node) → Nat
  | [] => 0
  | (k, v) :: rest => size k + size v + sizeOfEntries rest

end

mutual

/-- The nodes with an anchor, each with its place among them. -/
def anchored : Node → List (Nat × Node)
  | scalar mark text style => mark.anchored.toList.map (·, scalar mark text style)
  | list mark items =>
    mark.anchored.toList.map (·, list mark items) ++ anchoredItems items
  | table mark entries =>
    mark.anchored.toList.map (·, table mark entries) ++ anchoredEntries entries
  | aliasOf _ => []

def anchoredItems : List Node → List (Nat × Node)
  | [] => []
  | n :: ns => anchored n ++ anchoredItems ns

def anchoredEntries : List (Node × Node) → List (Nat × Node)
  | [] => []
  | (k, v) :: rest => anchored k ++ anchored v ++ anchoredEntries rest

end

end Node

/-- A document: its root, if it has one, and where the numbers of anchors lead, the latest
first. -/
structure Document where
  root : Option Node
  places : List (Nat × Nat) := []

namespace Document

/-- The node that the number of an anchor leads to. -/
def target? (d : Document) (number : Nat) : Option Node := do
  let place ← d.places.lookup number
  (← d.root).anchored.lookup place

/-- The size of a document; one that is empty counts as a scalar. -/
def size (d : Document) : Nat := d.root.elim 1 Node.size

end Document

end Intake.Yaml
