import Mathlib.Data.String.Basic
import Intake.Proofs.Table
import Intake.Proofs.Value
/-!
# Members in the order of their keys

`sortMembers` gives the one list with growing keys in which every key has the value that was given
for it last:

    lookup? name (sortMembers members) = lookup? name members.reverse

So an object is known by what its keys hold (`ext_of_sorted`), in whatever order its members were
given.
-/

namespace Intake

namespace Value

variable {members members' : List (String × Value)} {key name : String} {v : Value}

/-- Members are looked up as in a table. -/
theorem lookup?_eq_get? (name : String) (members : List (String × Value)) :
    lookup? name members = Table.get? members name := by
  induction members with
  | nil => rfl
  | cons head rest ih =>
    obtain ⟨k, w⟩ := head
    rw [Table.get?_cons, ← ih]
    by_cases h : name = k
    · simp [lookup?, h]
    · simp [lookup?, h, Ne.symm h]

/-- A key has a value exactly if it is there. -/
theorem lookup?_eq_none_iff : lookup? name members = none ↔ name ∉ members.map (·.1) := by
  rw [lookup?_eq_get?]
  exact Table.get?_eq_none_iff

theorem lookup?_insertMember (key : String) (v : Value) (members : List (String × Value))
    (name : String) :
    lookup? name (insertMember key v members) =
      if name = key then some v else lookup? name members := by
  simp only [lookup?_eq_get?]
  induction members with
  | nil => simp [insertMember, Table.get?_cons, Table.get?_nil]
  | cons head rest ih =>
    obtain ⟨k, w⟩ := head
    rw [insertMember]
    split
    · rw [Table.get?_cons]
    · split
      · next hk =>
        rw [Table.get?_cons, Table.get?_cons, hk]
        split <;> rfl
      · next hk =>
        rw [Table.get?_cons, ih, Table.get?_cons]
        split
        · next hn => rw [if_neg fun h => hk (h.symm.trans hn)]
        · rfl

/-- The value that was given last stays. -/
theorem lookup?_sortMembers (name : String) (members : List (String × Value)) :
    lookup? name (sortMembers members) = lookup? name members.reverse := by
  have hfold : ∀ members done : List (String × Value),
      lookup? name (members.foldl (fun done m => insertMember m.1 m.2 done) done) =
        (lookup? name members.reverse).or (lookup? name done) := by
    intro members
    induction members with
    | nil => exact fun done => rfl
    | cons m rest ih =>
      intro done
      have hlast : lookup? name [m] = if name = m.1 then some m.2 else none := by
        rw [lookup?_eq_get?]
        exact Table.get?_cons m.1 name m.2 []
      rw [List.foldl_cons, ih, lookup?_insertMember, List.reverse_cons,
        lookup?_eq_get? name (rest.reverse ++ [m]), Table.get?_append, Option.or_assoc,
        ← lookup?_eq_get?, ← lookup?_eq_get?, hlast]
      split <;> rfl
  rw [sortMembers, hfold]
  exact Option.or_none

theorem lookup?_append (members members' : List (String × Value)) (key : String) :
    lookup? key (members ++ members') = (lookup? key members).or (lookup? key members') := by
  simp only [lookup?_eq_get?]
  exact Table.get?_append members members' key

theorem lookup?_filter {p : String → Bool} (hp : p key = true) :
    lookup? key (members.filter fun m => p m.1) = lookup? key members := by
  rw [lookup?, lookup?, List.find?_filter]
  congr 2
  funext m
  by_cases hm : m.1 = key <;> simp [hm, hp]

/-- The defined ones of some values, each under its name. -/
theorem lookup?_filterMap (f : String → Option Value) (names : List String) (name : String) :
    lookup? name (names.filterMap fun n => (f n).map (n, ·)) =
      if name ∈ names then f name else none := by
  induction names with
  | nil => rfl
  | cons n rest ih =>
    rw [List.filterMap_cons]
    cases hv : f n with
    | none =>
      rw [Option.map_none, ih]
      by_cases hn : name = n
      · simp [hn, hv]
      · simp [hn]
    | some v =>
      rw [Option.map_some, lookup?_eq_get?, Table.get?_cons, ← lookup?_eq_get?, ih]
      by_cases hn : name = n
      · simp [hn, hv]
      · simp [hn]

/-! ## Sorted members -/

/-- The keys grow. -/
def SortedKeys (members : List (String × Value)) : Prop :=
  (members.map (·.1)).Pairwise (· < ·)

theorem SortedKeys.insertMember (h : SortedKeys members) (key : String) (v : Value) :
    SortedKeys (insertMember key v members) := by
  unfold SortedKeys at h ⊢
  induction members with
  | nil => simp [Value.insertMember]
  | cons head rest ih =>
    obtain ⟨k, w⟩ := head
    obtain ⟨hk, hrest⟩ := List.pairwise_cons.1 h
    rw [Value.insertMember]
    split
    · next hlt =>
      refine List.pairwise_cons.2 ⟨fun s hs => ?_, h⟩
      rcases List.mem_cons.1 hs with rfl | hs
      · exact hlt
      · exact lt_trans hlt (hk s hs)
    · next hge =>
      split
      · next heq => exact List.pairwise_cons.2 ⟨fun s hs => heq ▸ hk s hs, hrest⟩
      · next hne =>
        refine List.pairwise_cons.2 ⟨fun s hs => ?_, ih hrest⟩
        rcases mem_keys_insertMember.1 hs with rfl | hs
        · exact lt_of_le_of_ne (not_lt.1 hge) (Ne.symm hne)
        · exact hk s hs

theorem sortedKeys_sortMembers (members : List (String × Value)) :
    SortedKeys (sortMembers members) := by
  have hfold : ∀ members done : List (String × Value), SortedKeys done →
      SortedKeys (members.foldl (fun done m => Value.insertMember m.1 m.2 done) done) := by
    intro members
    induction members with
    | nil => exact fun done h => h
    | cons m rest ih => exact fun done h => ih _ (h.insertMember m.1 m.2)
  exact hfold members [] List.Pairwise.nil

theorem SortedKeys.nodup (h : SortedKeys members) : (members.map (·.1)).Nodup :=
  List.Pairwise.imp (fun hlt => ne_of_lt hlt) h

/-- Sorted members are known by what their keys hold. -/
theorem ext_of_sorted (h : SortedKeys members) (h' : SortedKeys members')
    (hlookup : ∀ name, lookup? name members = lookup? name members') : members = members' := by
  have hmem : ∀ m, m ∈ members ↔ m ∈ members' := by
    rintro ⟨name, v⟩
    have hname := hlookup name
    rw [lookup?_eq_get?, lookup?_eq_get?] at hname
    refine ⟨fun hm => ?_, fun hm => ?_⟩
    · exact Table.mem_of_get? (hname ▸ Table.get?_of_mem h.nodup hm)
    · exact Table.mem_of_get? (hname ▸ Table.get?_of_mem h'.nodup hm)
  have hperm : members.Perm members' :=
    (List.perm_ext_iff_of_nodup (.of_map _ h.nodup) (.of_map _ h'.nodup)).2 hmem
  have hanti : ∀ m m' : String × Value, m ∈ members → m' ∈ members' → m.1 < m'.1 → m'.1 < m.1 →
      m = m' := fun _ _ _ _ hlt hlt' => absurd hlt' (lt_asymm hlt)
  exact hperm.eq_of_pairwise hanti (List.pairwise_map.1 h) (List.pairwise_map.1 h')

theorem mem_of_mem_sortMembers {m : String × Value} (h : m ∈ sortMembers members) :
    m ∈ members := by
  obtain ⟨name, v⟩ := m
  have hlookup : lookup? name (sortMembers members) = some v := by
    rw [lookup?_eq_get?]
    exact Table.get?_of_mem (sortedKeys_sortMembers members).nodup h
  rw [lookup?_sortMembers, lookup?_eq_get?] at hlookup
  exact List.mem_reverse.1 (Table.mem_of_get? hlookup)

/-- Sorted members stay as they are. -/
theorem SortedKeys.sortMembers_eq (h : SortedKeys members) : sortMembers members = members := by
  have hnodup : (Table.names members.reverse).Nodup := by
    rw [Table.names, List.map_reverse]
    exact List.nodup_reverse.2 h.nodup
  refine ext_of_sorted (sortedKeys_sortMembers members) h fun name => ?_
  rw [lookup?_sortMembers, lookup?_eq_get?, lookup?_eq_get?]
  cases hv : Table.get? members name with
  | none =>
    rw [Table.get?_eq_none_iff] at hv ⊢
    rwa [Table.names, List.map_reverse, List.mem_reverse]
  | some v => exact Table.get?_of_mem hnodup (List.mem_reverse.2 (Table.mem_of_get? hv))

end Value

end Intake
