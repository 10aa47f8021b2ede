import Mathlib
import Intake.Value
/-!
# Parts of a value

A value has a part for every key of an object and for every index of a list, as texts.
-/

namespace Intake.Value

/-- Whether a value is a list or an object. -/
def isComposite : Value → Bool
  | list _ => true
  | object _ => true
  | _ => false

theorem any_asList_eq_false {v : Option Value} :
    v.any (fun v => v.asList?.isSome) = false ↔ ¬ ∃ values, v = some (.list values) := by
  rcases v with - | v
  · simp
  · cases v <;> simp [asList?]

theorem any_asObject_eq_false {v : Option Value} :
    v.any (fun v => v.asObject?.isSome) = false ↔ ¬ ∃ members, v = some (.object members) := by
  rcases v with - | v
  · simp
  · cases v <;> simp [asObject?]

/-- The part of a value that a segment addresses. -/
def under? : Value → String → Option Value
  | object members, segment => lookup? segment members
  | list items, segment => segment.toNat?.bind (items[·]?)
  | _, _ => none

/-- The part at an address. -/
def at? (v : Value) : List String → Option Value
  | [] => some v
  | segment :: rest => (v.under? segment).bind (·.at? rest)

theorem under?_list (items : List Value) (i : Nat) :
    (list items).under? (toString i) = items[i]? := by
  rw [under?, show (toString i).toNat? = some i from Nat.toNat?_repr i, Option.bind_some]

theorem at?_singleton (v : Value) (segment : String) : v.at? [segment] = v.under? segment := by
  rw [at?]
  cases v.under? segment <;> rfl

/-! ## Keys -/

theorem mem_keys_insertMember {key name : String} {v : Value} {members : List (String × Value)} :
    name ∈ (insertMember key v members).map (·.1) ↔ name = key ∨ name ∈ members.map (·.1) := by
  induction members with
  | nil => simp [insertMember]
  | cons head rest ih =>
    obtain ⟨k, w⟩ := head
    rw [insertMember]
    split
    · simp
    · split
      · next hk => simp [hk]
      · rw [List.map_cons, List.mem_cons, ih, List.map_cons, List.mem_cons]
        exact or_left_comm

/-- Sorting keeps the keys. -/
theorem mem_keys_sortMembers {name : String} {members : List (String × Value)} :
    name ∈ (sortMembers members).map (·.1) ↔ name ∈ members.map (·.1) := by
  have hfold : ∀ members done : List (String × Value),
      name ∈ (members.foldl (fun done m => insertMember m.1 m.2 done) done).map (·.1) ↔
        name ∈ members.map (·.1) ∨ name ∈ done.map (·.1) := by
    intro members
    induction members with
    | nil => simp
    | cons m rest ih =>
      intro done
      rw [List.foldl_cons, ih, mem_keys_insertMember, List.map_cons, List.mem_cons]
      exact or_left_comm.trans or_assoc.symm
  simpa [sortMembers] using hfold members []

end Intake.Value
