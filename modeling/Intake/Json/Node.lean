import Intake.Json.Token
import Intake.Value
/-!
# JSON as written

A `Node` is a JSON text as it is written: members in their order, a repeated key repeated.
A value forgets that; a schema document, whose fields have an order and may not repeat, is read
from the node.

The reader is a machine over the tokens.  Its state is the stack of lists and objects that are
open and the place in the innermost one, and each token either moves it on or is refused.
-/

namespace Intake.Json

inductive Node where
  | null
  | bool (b : Bool)
  | num (n : Option Number)
  | str (s : Option String)
  | list (items : List Node)
  | object (members : List (Option String × Node))

/-- A list or an object that is still open, with what it holds so far, the last first. -/
inductive Frame where
  | list (items : List Node)
  | object (members : List (Option String × Node)) (key : Option String)

/-- What may come next. -/
inductive Place where
  | value
  | firstItem
  | firstKey (members : List (Option String × Node))
  | key (members : List (Option String × Node))
  | colon (members : List (Option String × Node)) (key : Option String)
  | after (node : Node)

structure Reader where
  stack : List Frame
  place : Place

namespace Reader

def start : Reader := ⟨[], .value⟩

/-- Takes the first token of a value. -/
def begin (stack : List Frame) : Token → Option Reader
  | .null => some ⟨stack, .after .null⟩
  | .bool b => some ⟨stack, .after (.bool b)⟩
  | .num n => some ⟨stack, .after (.num n)⟩
  | .str s => some ⟨stack, .after (.str s)⟩
  | .openList => some ⟨stack, .firstItem⟩
  | .openObject => some ⟨stack, .firstKey []⟩
  | _ => none

/-- Takes one token. -/
def step (r : Reader) (t : Token) : Option Reader :=
  match r.place, t with
  | .value, t => begin r.stack t
  | .firstItem, .closeList => some ⟨r.stack, .after (.list [])⟩
  | .firstItem, t => begin (.list [] :: r.stack) t
  | .firstKey _, .closeObject => some ⟨r.stack, .after (.object [])⟩
  | .firstKey ms, .str k => some ⟨r.stack, .colon ms k⟩
  | .key ms, .str k => some ⟨r.stack, .colon ms k⟩
  | .colon ms k, .colon => some ⟨.object ms k :: r.stack, .value⟩
  | .after node, t =>
    match r.stack, t with
    | .list items :: stack, .comma => some ⟨.list (node :: items) :: stack, .value⟩
    | .list items :: stack, .closeList => some ⟨stack, .after (.list (node :: items).reverse)⟩
    | .object ms k :: stack, .comma => some ⟨stack, .key ((k, node) :: ms)⟩
    | .object ms k :: stack, .closeObject =>
      some ⟨stack, .after (.object ((k, node) :: ms).reverse)⟩
    | _, _ => none
  | _, _ => none

/-- The node that has been read, when nothing is open. -/
def result? (r : Reader) : Option Node :=
  match r.stack, r.place with
  | [], .after node => some node
  | _, _ => none

end Reader

/-- The single node that a text holds. -/
def Node.read (text : List Char) : Option Node := do
  let r ← (← tokens text).foldlM Reader.step Reader.start
  r.result?

/-- Lists and objects may be nested this deep. -/
def maxDepth : Nat := 127

mutual

/-- The value of a node whose lists and objects are nested at most `depth` deep and whose tokens
all stand for something. -/
def Node.value? (depth : Nat) : Node → Option Value
  | .null => some .null
  | .bool b => some (.bool b)
  | .num n => n.map .num
  | .str s => s.map .str
  | .list items =>
    match depth with
    | 0 => none
    | depth + 1 => .list <$> itemValues? depth items
  | .object members =>
    match depth with
    | 0 => none
    | depth + 1 => Value.ofMembers <$> memberValues? depth members

def itemValues? (depth : Nat) : List Node → Option (List Value)
  | [] => some []
  | n :: ns => do return (← n.value? depth) :: (← itemValues? depth ns)

def memberValues? (depth : Nat) : List (Option String × Node) → Option (List (String × Value))
  | [] => some []
  | (k, n) :: ms => do return (← k, ← n.value? depth) :: (← memberValues? depth ms)

end

/-- The value that a JSON text holds. -/
def readValue (text : String) : Option Value := do
  (← Node.read text.toList).value? maxDepth

end Intake.Json
