import Intake.Json.Text
import Intake.Value
/-!
# Writing JSON

Two layouts: compact, without any blank, and pretty, with a line for each item or member and two
spaces for each level.  Members are written in the order in which the object holds them.
-/

namespace Intake.Json

mutual

/-- The compact text of a value. -/
def write : Value → List Char
  | .null => ['n', 'u', 'l', 'l']
  | .bool true => ['t', 'r', 'u', 'e']
  | .bool false => ['f', 'a', 'l', 's', 'e']
  | .num n => n.write
  | .str s => writeString s
  | .list [] => ['[', ']']
  | .list (v :: vs) => '[' :: (write v ++ writeItems vs)
  | .object [] => ['\x7b', '\x7d']
  | .object ((k, v) :: ms) => '\x7b' :: (writeString k ++ ':' :: (write v ++ writeMembers ms))

/-- The items after the first one, and the closing bracket. -/
def writeItems : List Value → List Char
  | [] => [']']
  | v :: vs => ',' :: (write v ++ writeItems vs)

/-- The members after the first one, and the closing brace. -/
def writeMembers : List (String × Value) → List Char
  | [] => ['\x7d']
  | (k, v) :: ms => ',' :: (writeString k ++ ':' :: (write v ++ writeMembers ms))

end

/-- A line break and the indentation of a level. -/
def newLine (level : Nat) : List Char := '\n' :: List.replicate (2 * level) ' '

mutual

/-- The pretty text of a value at a level. -/
def writePretty (level : Nat) : Value → List Char
  | .list (v :: vs) =>
    '[' :: (newLine (level + 1) ++ writePretty (level + 1) v ++ prettyItems level vs)
  | .object ((k, v) :: ms) =>
    '\x7b' :: (newLine (level + 1) ++ writeString k ++ ':' :: ' ' ::
      (writePretty (level + 1) v ++ prettyMembers level ms))
  | v => write v

def prettyItems (level : Nat) : List Value → List Char
  | [] => newLine level ++ [']']
  | v :: vs =>
    ',' :: (newLine (level + 1) ++ writePretty (level + 1) v ++ prettyItems level vs)

def prettyMembers (level : Nat) : List (String × Value) → List Char
  | [] => newLine level ++ ['\x7d']
  | (k, v) :: ms =>
    ',' :: (newLine (level + 1) ++ writeString k ++ ':' :: ' ' ::
      (writePretty (level + 1) v ++ prettyMembers level ms))

end

/-- The compact text. -/
def compact (v : Value) : String := String.ofList (write v)

/-- The pretty text. -/
def pretty (v : Value) : String := String.ofList (writePretty 0 v)

end Intake.Json
