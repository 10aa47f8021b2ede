/-!
# Tables

A table is a list of named entries in the order in which the names were first put.  Putting a
name again replaces its entry where it stands.  Fields of a schema, members of an object, nodes
of a schedule, children of a tracker and messages of a catalogue are tables.
-/

namespace Intake

abbrev Table (α : Type) := List (String × α)

namespace Table

variable {α : Type}

/-- The entry of a name. -/
def get? (t : Table α) (name : String) : Option α := List.lookup name t

def contains (t : Table α) (name : String) : Bool := (get? t name).isSome

/-- The names in order. -/
def names (t : Table α) : List String := t.map (·.1)

/-- Replaces the entry of a name where it stands, or adds it at the end. -/
def put (name : String) (entry : α) : Table α → Table α
  | [] => [(name, entry)]
  | (n, e) :: rest => if n = name then (n, entry) :: rest else (n, e) :: put name entry rest

/-- Puts every entry of another table, in its order. -/
def extend (t other : Table α) : Table α := other.foldl (fun done e => put e.1 e.2 done) t

/-- The table of some entries, the last entry of each name in the place of its first. -/
def ofList (entries : List (String × α)) : Table α := extend [] entries

/-! ## What each operation does to a look-up -/

theorem get?_nil (name : String) : get? ([] : Table α) name = none := rfl

theorem get?_cons (n name : String) (e : α) (t : Table α) :
    get? ((n, e) :: t) name = if name = n then some e else get? t name := by
  by_cases h : name = n
  · simp [get?, h]
  · simp [get?, List.lookup_cons, h, beq_eq_false_iff_ne.2 h]

theorem get?_put (t : Table α) (name other : String) (entry : α) :
    get? (put name entry t) other = if other = name then some entry else get? t other := by
  induction t with
  | nil => simp [put, get?_cons, get?_nil]
  | cons head rest ih =>
    obtain ⟨n, e⟩ := head
    by_cases h : n = name <;> simp only [put, h, if_true, if_false, get?_cons, ih]
    · split <;> simp_all
    · split <;> simp_all

theorem names_put_of_contains (t : Table α) (name : String) (entry : α)
    (h : name ∈ names t) : names (put name entry t) = names t := by
  induction t with
  | nil => simp [names] at h
  | cons head rest ih =>
    obtain ⟨n, e⟩ := head
    by_cases hn : n = name
    · simp [put, hn, names]
    · have hrest : name ∈ names rest := by
        rcases List.mem_cons.1 h with h | h
        · exact absurd h.symm hn
        · exact h
      simpa [put, hn, names] using ih hrest

theorem names_put_of_not_mem (t : Table α) (name : String) (entry : α)
    (h : name ∉ names t) : names (put name entry t) = names t ++ [name] := by
  induction t with
  | nil => rfl
  | cons head rest ih =>
    obtain ⟨n, e⟩ := head
    have hn : n ≠ name := fun hn => h (by simp [names, hn])
    have hrest : name ∉ names rest := fun hr => h (List.mem_cons_of_mem _ hr)
    simpa [put, hn, names] using ih hrest

end Table

end Intake
