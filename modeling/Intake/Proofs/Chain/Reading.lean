import Mathlib.Logic.Relation
import Intake.Proofs.Chain.Built
/-!
# What chains read

A chain looks up the target of a reference, a default and step arguments.  Where such a path leads
can be told from the chains alone: the innermost object around the reader that has a member of the
first segment decides, and the path is followed from there (`Chain.resolve?`).

So the members of an object depend on one another (`Chain.DependsOn`), and paths may lead to an
object around the reader, or back into the branch that they come from (`Chain.Returns`).
-/

namespace Intake.Chain

open Relation

/-- The paths that a chain looks up itself. -/
def reads (c : Chain) : List Path :=
  (match c.kind with
    | .reference path => [path]
    | _ => [])
  ++ (c.props.default?.bind (·.path?)).toList ++ c.pipeline.flatMap (·.references)

/-- The chain at an address looks up a path. -/
def Reads (c : Chain) (reader : List String) (path : Path) : Prop :=
  ∃ inner, c.at? reader = some inner ∧ path ∈ inner.reads

/-- The innermost object around a reader that has a member of a name. -/
def entry? (first : String) (c : Chain) : List String → Option (List String)
  | [] => none
  | s :: below =>
    match (c.kind.child? s).bind fun member => member.entry? first below with
    | some entry => some (s :: entry)
    | none => if (c.kind.child? first).isSome then some [] else none

/-- The address to which a path leads for a reader, if there is a chain. -/
def resolve? (c : Chain) (reader : List String) (path : Path) : Option (List String) := do
  let entry ← c.entry? (← path.first?) reader
  let target := entry ++ path.segments
  if (c.at? target).isSome then some target else none

/-- Every path that is looked up leads to a chain. -/
def Resolved (c : Chain) : Prop :=
  ∀ reader path, c.Reads reader path → (c.resolve? reader path).isSome

/-- A member of an object, or a chain inside of it, looks up another member, or a chain inside of
that one. -/
def DependsOn (c : Chain) (object : List String) (name other : String) : Prop :=
  name ≠ other ∧ ∃ below path rest, c.Reads (object ++ name :: below) path ∧
    c.resolve? (object ++ name :: below) path = some (object ++ other :: rest)

/-- Members of an object depend on one another in a circle. -/
def Circular (c : Chain) : Prop := ∃ object name, TransGen (c.DependsOn object) name name

/-- A path leads to an object around its reader. -/
def ReadsAround (c : Chain) : Prop :=
  ∃ target s below path, c.Reads (target ++ s :: below) path ∧
    c.resolve? (target ++ s :: below) path = some target

/-- A path enters outside of an object and comes back to the member of the object that holds the
reader. -/
def Returns (c : Chain) : Prop :=
  ∃ entry s next below path rest, c.Reads (entry ++ s :: next :: below) path ∧
    c.entry? s (entry ++ s :: next :: below) = some entry ∧ path.segments = s :: next :: rest

/-- What the standard mapper takes for a cycle. -/
def Faulty (c : Chain) : Prop := c.Circular ∨ c.ReadsAround ∨ c.Returns

/-- A chain inside looks up a path that no object inside decides. -/
def Leaves (c : Chain) (path : Path) : Prop :=
  ∃ reader, c.Reads reader path ∧ ∀ first, path.first? = some first → c.entry? first reader = none

/-- All chains inside of a chain, itself included, have a property. -/
def Throughout (P : Chain → Prop) (c : Chain) : Prop :=
  ∀ address inner, c.at? address = some inner → P inner

/-! ## Addresses -/

variable {c inner member : Chain} {first s : String} {address reader below : List String}
  {path : Path}

theorem at?_cons (c : Chain) (s : String) (below : List String) :
    c.at? (s :: below) = (c.kind.child? s).bind (·.at? below) := rfl

theorem at?_singleton : c.at? [s] = c.kind.child? s := by
  rw [at?_cons]
  cases c.kind.child? s <;> rfl

theorem at?_append (address below : List String) (c : Chain) :
    c.at? (address ++ below) = (c.at? address).bind (·.at? below) := by
  induction address generalizing c with
  | nil => rfl
  | cons s rest ih =>
    rw [List.cons_append, at?_cons, at?_cons, Option.bind_assoc]
    exact congrArg _ (funext ih)

theorem isSome_at?_of_append (h : (c.at? (address ++ below)).isSome) : (c.at? address).isSome := by
  rw [at?_append, Option.isSome_bind, Option.any_eq_true] at h
  obtain ⟨inner, hinner, -⟩ := h
  exact Option.isSome_iff_exists.2 ⟨inner, hinner⟩

theorem Throughout.at? {P : Chain → Prop} (h : c.Throughout P) (hi : c.at? address = some inner) :
    inner.Throughout P := by
  intro below last hlast
  refine h (address ++ below) last ?_
  rw [at?_append, hi, Option.bind_some, hlast]

theorem Throughout.child {P : Chain → Prop} (h : c.Throughout P)
    (hm : c.kind.child? s = some member) : member.Throughout P :=
  h.at? (at?_singleton.trans hm)

theorem Reads.isSome (h : c.Reads reader path) : (c.at? reader).isSome := by
  obtain ⟨inner, hinner, -⟩ := h
  exact Option.isSome_iff_exists.2 ⟨inner, hinner⟩

theorem Reads.append (h : c.at? address = some inner) (hreads : inner.Reads below path) :
    c.Reads (address ++ below) path := by
  obtain ⟨last, hlast, hpath⟩ := hreads
  exact ⟨last, by rw [at?_append, h, Option.bind_some, hlast], hpath⟩

theorem Reads.cons (hm : c.kind.child? s = some member) (hreads : member.Reads below path) :
    c.Reads (s :: below) path :=
  hreads.append (at?_singleton.trans hm)

/-! ## Trees -/

theorem Throughout.leaf {P : Chain → Prop} (hc : ∀ s, c.kind.child? s = none) (h : P c) :
    c.Throughout P := by
  intro address inner hinner
  cases address with
  | nil => exact Option.some.inj hinner ▸ h
  | cons s rest =>
    rw [at?_cons, hc s] at hinner
    cases hinner

theorem Throughout.object {P : Chain → Prop} {fields : List (String × Chain)}
    (hc : c.kind = .object fields) (h : P c) (hfields : ∀ f ∈ fields, f.2.Throughout P) :
    c.Throughout P := by
  intro address inner hinner
  cases address with
  | nil => exact Option.some.inj hinner ▸ h
  | cons s rest =>
    rw [at?_cons, hc, Option.bind_eq_some_iff] at hinner
    obtain ⟨member, hm, hinner⟩ := hinner
    exact hfields _ (Table.mem_of_get? hm) rest inner hinner

theorem Reads.of_leaf (h : c.Reads reader path) (hc : ∀ s, c.kind.child? s = none) :
    reader = [] ∧ path ∈ c.reads := by
  obtain ⟨inner, hinner, hpath⟩ := h
  cases reader with
  | nil => exact ⟨rfl, Option.some.inj hinner ▸ hpath⟩
  | cons s rest =>
    rw [at?_cons, hc s] at hinner
    cases hinner

/-- In an object that looks nothing up itself, a field does. -/
theorem Reads.of_object {fields : List (String × Chain)} (h : c.Reads reader path)
    (hc : c.kind = .object fields) (hreads : c.reads = []) :
    ∃ f ∈ fields, ∃ below, reader = f.1 :: below ∧ f.2.Reads below path := by
  obtain ⟨inner, hinner, hpath⟩ := h
  cases reader with
  | nil =>
    obtain rfl := Option.some.inj hinner
    rw [hreads] at hpath
    cases hpath
  | cons s rest =>
    rw [at?_cons, hc, Option.bind_eq_some_iff] at hinner
    obtain ⟨member, hm, hinner⟩ := hinner
    exact ⟨(s, member), Table.mem_of_get? hm, rest, rfl, inner, hinner, hpath⟩

/-! ## Entries -/

theorem entry?_cons_eq_none (hm : c.kind.child? s = some member) :
    c.entry? first (s :: below) = none ↔
      member.entry? first below = none ∧ c.kind.child? first = none := by
  rw [ entry?, hm, Option.bind_some]
  cases member.entry? first below <;> simp

/-- If no member on the way decides, the object does. -/
theorem entry?_cons (hm : c.kind.child? s = some member)
    (hbelow : member.entry? first below = none) :
    c.entry? first (s :: below) = if (c.kind.child? first).isSome then some [] else none := by
  rw [ entry?, hm, Option.bind_some, hbelow]

/-- What an object decides is the same from further out. -/
theorem entry?_append (h : c.at? address = some inner) (below : List String) :
    c.entry? first (address ++ below) =
      (inner.entry? first below).elim (c.entry? first address) fun entry =>
        some (address ++ entry) := by
  induction address generalizing c with
  | nil =>
    obtain rfl := Option.some.inj h
    show c.entry? first below = _
    cases c.entry? first below <;> rfl
  | cons s rest ih =>
    rw [at?_cons, Option.bind_eq_some_iff] at h
    obtain ⟨member, hm, h⟩ := h
    rw [List.cons_append, entry?, entry?, hm, Option.bind_some, Option.bind_some, ih h]
    cases inner.entry? first below <;> rfl

/-- An object that holds a member is what its name leads to from the member. -/
theorem entry?_own (h : (c.at? (address ++ [first])).isSome) :
    c.entry? first (address ++ [first]) = some address := by
  rw [at?_append, Option.isSome_bind, Option.any_eq_true] at h
  obtain ⟨object, hobject, h⟩ := h
  rw [at?_cons, Option.isSome_bind, Option.any_eq_true] at h
  obtain ⟨member, hm, -⟩ := h
  rw [entry?_append hobject, entry?_cons hm rfl, hm, if_pos Option.isSome_some]
  simp

/-- The object that decides, and the way from there to the reader. -/
theorem exists_of_entry? {entry : List String} (h : c.entry? first reader = some entry)
    (hreader : (c.at? reader).isSome) :
    ∃ object s below member, reader = entry ++ s :: below ∧ c.at? entry = some object ∧
      (object.kind.child? first).isSome ∧ object.kind.child? s = some member ∧
      member.entry? first below = none := by
  induction reader generalizing c entry with
  | nil => cases h
  | cons s rest ih =>
    rw [at?_cons, Option.isSome_bind, Option.any_eq_true] at hreader
    obtain ⟨member, hm, hreader⟩ := hreader
    rw [ entry?, hm, Option.bind_some] at h
    cases hentry : member.entry? first rest with
    | none =>
      simp only [hentry] at h
      split at h
      · next hfirst =>
        obtain rfl := Option.some.inj h
        exact ⟨c, s, rest, member, rfl, rfl, hfirst, hm, hentry⟩
      · cases h
    | some inner =>
      simp only [hentry, Option.some.injEq] at h
      subst h
      obtain ⟨object, s', below, last, rfl, hobject, hfirst⟩ := ih hentry hreader
      refine ⟨object, s', below, last, rfl, ?_, hfirst⟩
      rw [at?_cons, hm]
      exact hobject

/-- Where a path leads, by the object that decides. -/
theorem resolve?_eq_some_iff {target : List String} :
    c.resolve? reader path = some target ↔ ∃ first rest entry, path.segments = first :: rest ∧
      c.entry? first reader = some entry ∧ target = entry ++ first :: rest ∧
      (c.at? target).isSome := by
  unfold resolve? Path.first?
  cases hs : path.segments with
  | nil => simp
  | cons first rest =>
    cases he : c.entry? first reader with
    | none => simp [he]
    | some entry =>
      simp only [List.head?_cons, Option.bind_eq_bind, Option.bind_some, he]
      constructor
      · intro h
        split at h
        · next hat =>
          obtain rfl := Option.some.inj h
          exact ⟨first, rest, entry, rfl, he, rfl, hat⟩
        · cases h
      · rintro ⟨_, _, _, hcons, hentry, rfl, hat⟩
        obtain ⟨rfl, rfl⟩ := List.cons.inj hcons
        obtain rfl := Option.some.inj (he.symm.trans hentry)
        rw [if_pos hat]

end Intake.Chain
