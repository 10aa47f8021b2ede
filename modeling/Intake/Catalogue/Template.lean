import Intake.Text.Blank
/-!
# Templates

A template is a text with names in braces.  Filling it in puts the value of each name in the
place of the braces; a name without a value stays as it stands, and so does a brace that is never
closed.  Values are not looked at again, whatever braces they hold.
-/

namespace Intake.Template

/-- The name up to the first closing brace, and what follows the brace. -/
def splitName : List Char → Option (List Char × List Char)
  | [] => none
  | c :: cs =>
    if c = '\x7d' then some ([], cs)
    else (splitName cs).map fun (name, rest) => (c :: name, rest)

theorem length_of_splitName {cs name rest : List Char} (h : splitName cs = some (name, rest)) :
    rest.length < cs.length := by
  induction cs generalizing name rest with
  | nil => simp [splitName] at h
  | cons c cs ih =>
    unfold splitName at h
    split at h
    · simp only [Option.some.injEq, Prod.mk.injEq] at h
      simp [← h.2]
    · obtain ⟨⟨n, r⟩, hr, he⟩ := Option.map_eq_some_iff.1 h
      simp only [Prod.mk.injEq] at he
      have := ih hr
      simp only [List.length_cons, ← he.2]
      omega

/-- The text of a name: its value, or the name in its braces. -/
def fillName (lookup : String → Option String) (name : List Char) : List Char :=
  match lookup (String.ofList name) with
  | some value => value.toList
  | none => '\x7b' :: (name ++ ['\x7d'])

/-- Puts the values of the names in place. -/
def fillChars (lookup : String → Option String) : List Char → List Char
  | [] => []
  | c :: cs =>
    if c = '\x7b' then
      match _h : splitName cs with
      | some (name, rest) => fillName lookup name ++ fillChars lookup rest
      | none => c :: cs
    else c :: fillChars lookup cs
termination_by cs => cs.length
decreasing_by
  · have := length_of_splitName _h
    simp only [List.length_cons]
    omega
  · simp

/-- The template with its names filled in. -/
def fill (template : String) (lookup : String → Option String) : String :=
  String.ofList (fillChars lookup template.toList)

/-- The place that a name in digits, perhaps after a plus sign, stands for. -/
def placeOf? (name : List Char) : Option Nat :=
  let digits : List Char :=
    match name with
    | '+' :: ds => ds
    | ds => ds
  let place := digits.foldl (fun n c => n * 10 + (c.toNat - '0'.toNat)) 0
  if digits ≠ [] ∧ digits.all Char.isDigit ∧ place < Nat.pow 2 64 then some place else none

end Intake.Template
