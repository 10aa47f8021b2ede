import Intake.Number
/-!
# Values

The data that schemas describe: null, truth values, numbers, text, lists and objects.

An object is a list of members.  The readers build it with `insertMember`, which keeps the
members sorted by key and one value for a key, the last one given; texts that fix an order of
their own (a document, a report) are written from a list of members in that order.
-/

namespace Intake

inductive Value where
  | null
  | bool (b : Bool)
  | num (n : Number)
  | str (s : String)
  | list (items : List Value)
  | object (members : List (String × Value))
deriving Repr

namespace Value

mutual

/-- Equality of values: numbers as `Number.same`, lists item by item, objects member by
member. -/
def same : Value → Value → Bool
  | null, null => true
  | bool a, bool b => a == b
  | num a, num b => a.same b
  | str a, str b => a == b
  | list a, list b => sameItems a b
  | object a, object b => sameMembers a b
  | _, _ => false

def sameItems : List Value → List Value → Bool
  | [], [] => true
  | a :: as, b :: bs => same a b && sameItems as bs
  | _, _ => false

def sameMembers : List (String × Value) → List (String × Value) → Bool
  | [], [] => true
  | (k, a) :: as, (l, b) :: bs => k == l && same a b && sameMembers as bs
  | _, _ => false

end

instance : BEq Value := ⟨same⟩

/-- Puts a member in its place by key; a member of the same key is replaced. -/
def insertMember (key : String) (value : Value) :
    List (String × Value) → List (String × Value)
  | [] => [(key, value)]
  | (k, v) :: rest =>
    if key < k then (key, value) :: (k, v) :: rest
    else if key = k then (key, value) :: rest
    else (k, v) :: insertMember key value rest

/-- The members sorted by key, the last value given for each. -/
def sortMembers (members : List (String × Value)) : List (String × Value) :=
  members.foldl (fun done m => insertMember m.1 m.2 done) []

/-- The object of some members in any order. -/
def ofMembers (members : List (String × Value)) : Value := object (sortMembers members)

/-- The value of a key. -/
def lookup? (key : String) (members : List (String × Value)) : Option Value :=
  (members.find? (·.1 == key)).map (·.2)

def ofNat (n : Nat) : Value := num (.int n)

def asString? : Value → Option String
  | str s => some s
  | _ => none

def asNumber? : Value → Option Number
  | num n => some n
  | _ => none

def asList? : Value → Option (List Value)
  | list items => some items
  | _ => none

def asObject? : Value → Option (List (String × Value))
  | object members => some members
  | _ => none

end Value

end Intake
