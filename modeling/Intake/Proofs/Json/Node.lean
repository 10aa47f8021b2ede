import Intake.Json.Node
import Intake.Proofs.Json.Tokens
/-!
# Written values are read again

The reader of nodes takes the tokens of a value to the node of the value, inside of whatever is
open:

    (tokensOf v).foldlM Reader.step ⟨stack, .value⟩ = some ⟨stack, .after (nodeOf v)⟩

So the node of a written value is the value as a node (`read_write`).
-/

namespace Intake.Json

mutual

/-- A value as it is written. -/
def nodeOf : Value → Node
  | .null => .null
  | .bool b => .bool b
  | .num n => .num (some n)
  | .str s => .str (some s)
  | .list items => .list (nodesOf items)
  | .object members => .object (memberNodesOf members)

def nodesOf : List Value → List Node
  | [] => []
  | v :: vs => nodeOf v :: nodesOf vs

def memberNodesOf : List (String × Value) → List (Option String × Node)
  | [] => []
  | (k, v) :: ms => (some k, nodeOf v) :: memberNodesOf ms

end

namespace Reader

/-- The first token of a value does not close a list, so it begins the first item. -/
theorem foldlM_firstItem (v : Value) (ts : List Token) (stack : List Frame) :
    (tokensOf v ++ ts).foldlM step ⟨stack, .firstItem⟩ =
      (tokensOf v ++ ts).foldlM step ⟨.list [] :: stack, .value⟩ := by
  cases v with
  | list items => cases items <;> rfl
  | object members =>
    cases members with
    | nil => rfl
    | cons m ms => rfl
  | _ => rfl

mutual

theorem foldlM_tokensOf (v : Value) (stack : List Frame) :
    (tokensOf v).foldlM step ⟨stack, .value⟩ = some ⟨stack, .after (nodeOf v)⟩ := by
  cases v with
  | list items =>
    cases items with
    | nil => rfl
    | cons v vs =>
      calc (tokensOf v ++ tokensOfItems vs).foldlM step ⟨stack, .firstItem⟩
        _ = (tokensOf v ++ tokensOfItems vs).foldlM step ⟨.list [] :: stack, .value⟩ :=
          foldlM_firstItem v _ stack
        _ = (tokensOfItems vs).foldlM step ⟨.list [] :: stack, .after (nodeOf v)⟩ := by
          rw [List.foldlM_append, foldlM_tokensOf v]
          rfl
        _ = _ := foldlM_tokensOfItems vs [] (nodeOf v) stack
  | object members =>
    cases members with
    | nil => rfl
    | cons m ms =>
      obtain ⟨k, v⟩ := m
      calc (tokensOf v ++ tokensOfMembers ms).foldlM step ⟨.object [] (some k) :: stack, .value⟩
        _ = (tokensOfMembers ms).foldlM step
            ⟨.object [] (some k) :: stack, .after (nodeOf v)⟩ := by
          rw [List.foldlM_append, foldlM_tokensOf v]
          rfl
        _ = _ := foldlM_tokensOfMembers ms [] (some k) (nodeOf v) stack
  | _ => rfl

theorem foldlM_tokensOfItems (vs : List Value) (items : List Node) (node : Node)
    (stack : List Frame) :
    (tokensOfItems vs).foldlM step ⟨.list items :: stack, .after node⟩ =
      some ⟨stack, .after (.list ((node :: items).reverse ++ nodesOf vs))⟩ := by
  cases vs with
  | nil =>
    rw [nodesOf, List.append_nil]
    rfl
  | cons v vs =>
    calc (tokensOf v ++ tokensOfItems vs).foldlM step ⟨.list (node :: items) :: stack, .value⟩
      _ = (tokensOfItems vs).foldlM step ⟨.list (node :: items) :: stack, .after (nodeOf v)⟩ := by
        rw [List.foldlM_append, foldlM_tokensOf v]
        rfl
      _ = _ := by
        rw [foldlM_tokensOfItems vs, List.reverse_cons, List.append_assoc]
        rfl

theorem foldlM_tokensOfMembers (ms : List (String × Value))
    (members : List (Option String × Node)) (key : Option String) (node : Node)
    (stack : List Frame) :
    (tokensOfMembers ms).foldlM step ⟨.object members key :: stack, .after node⟩ =
      some ⟨stack, .after (.object (((key, node) :: members).reverse ++ memberNodesOf ms))⟩ := by
  cases ms with
  | nil =>
    rw [memberNodesOf, List.append_nil]
    rfl
  | cons m ms =>
    obtain ⟨k, v⟩ := m
    calc (tokensOf v ++ tokensOfMembers ms).foldlM step
          ⟨.object ((key, node) :: members) (some k) :: stack, .value⟩
      _ = (tokensOfMembers ms).foldlM step
          ⟨.object ((key, node) :: members) (some k) :: stack, .after (nodeOf v)⟩ := by
        rw [List.foldlM_append, foldlM_tokensOf v]
        rfl
      _ = _ := by
        rw [foldlM_tokensOfMembers ms, List.reverse_cons, List.append_assoc]
        rfl

end

end Reader

/-- A written value is read as the value. -/
theorem read_write (v : Value) (hn : ∀ n ∈ v.numbers, n.ReadsBack) :
    Node.read (write v) = some (nodeOf v) := by
  rw [Node.read, tokens_write v hn]
  show ((tokensOf v).foldlM Reader.step Reader.start).bind Reader.result? = _
  rw [Reader.start, Reader.foldlM_tokensOf]
  rfl

end Intake.Json
