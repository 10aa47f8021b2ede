import Mathlib.Data.List.Basic
import Mathlib.Data.List.Induction
import Intake.Table
/-!
# Names and entries of tables

A name is in a table exactly if it has an entry.  In a table that names nothing twice the entry
of a name is the only one that stands there.
-/

namespace Intake

namespace Table

variable {α β : Type}

theorem contains_iff {t : Table α} {name : String} :
    t.contains name = true ↔ name ∈ names t := by
  simp only [contains, get?, names, List.lookup_isSome_iff, List.mem_map]
  constructor
  · rintro ⟨entry, hmem, he⟩
    exact ⟨entry, hmem, (eq_of_beq he).symm⟩
  · rintro ⟨entry, hmem, rfl⟩
    exact ⟨entry, hmem, beq_self_eq_true _⟩

theorem exists_get? {t : Table α} {name : String} (h : name ∈ names t) :
    ∃ e, get? t name = some e :=
  Option.isSome_iff_exists.1 (contains_iff.2 h)

theorem get?_eq_none_iff {t : Table α} {name : String} :
    get? t name = none ↔ name ∉ names t := by
  rw [← contains_iff, contains]
  cases get? t name <;> simp

theorem mem_of_get? {t : Table α} {name : String} {e : α} (h : get? t name = some e) :
    (name, e) ∈ t := by
  induction t with
  | nil => simp [get?_nil] at h
  | cons head rest ih =>
    obtain ⟨n, d⟩ := head
    rw [get?_cons] at h
    split at h
    · next hn =>
      obtain rfl := Option.some.inj h
      exact hn ▸ List.mem_cons_self
    · exact List.mem_cons_of_mem _ (ih h)

theorem mem_names_of_get? {t : Table α} {name : String} {e : α} (h : get? t name = some e) :
    name ∈ names t :=
  List.mem_map.2 ⟨_, mem_of_get? h, rfl⟩

/-- Without a name that stands twice, every entry is the one that is looked up. -/
theorem get?_of_mem {t : Table α} (nodup : (names t).Nodup) {name : String} {e : α}
    (h : (name, e) ∈ t) : get? t name = some e := by
  induction t with
  | nil => simp at h
  | cons head rest ih =>
    obtain ⟨n, d⟩ := head
    obtain ⟨hn, hrest⟩ := List.nodup_cons.1 nodup
    rw [get?_cons]
    rcases List.mem_cons.1 h with hhead | htail
    · obtain ⟨rfl, rfl⟩ := Prod.mk.inj hhead
      simp
    · have hne : name ≠ n := fun he => hn (he ▸ List.mem_map.2 ⟨_, htail, rfl⟩)
      rw [if_neg hne]
      exact ih hrest htail

theorem get?_append (t t' : Table α) (name : String) :
    get? (t ++ t') name = (get? t name).or (get? t' name) := by
  induction t with
  | nil => rfl
  | cons head rest ih =>
    obtain ⟨n, e⟩ := head
    rw [List.cons_append, get?_cons, get?_cons, ih]
    split <;> rfl

theorem get?_map (f : α → β) (t : Table α) (name : String) :
    get? (t.map fun entry => (entry.1, f entry.2)) name = (get? t name).map f := by
  induction t with
  | nil => rfl
  | cons head rest ih =>
    obtain ⟨n, d⟩ := head
    simp only [List.map_cons, get?_cons, ih]
    split <;> rfl

/-- Other entries under the same names. -/
theorem names_map (f : String × α → β) (t : Table α) :
    (t.map fun entry => (entry.1, f entry)).map (·.1) = t.map (·.1) := by
  rw [List.map_map]
  rfl

theorem nodup_put {name : String} {entry : α} {t : Table α} (h : (names t).Nodup) :
    (names (put name entry t)).Nodup := by
  by_cases hname : name ∈ names t
  · rw [names_put_of_contains _ _ _ hname]
    exact h
  · rw [names_put_of_not_mem _ _ _ hname]
    exact List.nodup_append.2 ⟨h, List.pairwise_singleton _ _, fun s hs s' hs' he =>
      hname (List.mem_singleton.1 hs' ▸ he ▸ hs)⟩

theorem put_of_not_mem {name : String} {t : Table α} (h : name ∉ names t) (entry : α) :
    put name entry t = t ++ [(name, entry)] := by
  induction t with
  | nil => rfl
  | cons head rest ih =>
    obtain ⟨hne, hrest⟩ := not_or.1 (mt List.mem_cons.2 h)
    rw [put, if_neg (Ne.symm hne), ih hrest, List.cons_append]

/-- Entries of names that are not there come at the end. -/
theorem extend_of_nodup {t other : Table α} (h : (names (t ++ other)).Nodup) :
    extend t other = t ++ other := by
  induction other generalizing t with
  | nil => exact (List.append_nil t).symm
  | cons head rest ih =>
    have hhead : head.1 ∉ names t := by
      intro hmem
      rw [names, List.map_append] at h
      exact (List.nodup_append.1 h).2.2 _ hmem _ List.mem_cons_self rfl
    have hcons : t ++ head :: rest = t ++ [head] ++ rest := by simp
    show extend (put head.1 head.2 t) rest = t ++ head :: rest
    rw [put_of_not_mem hhead, hcons, ih (hcons ▸ h)]

theorem ofList_of_nodup {t : Table α} (h : (names t).Nodup) : ofList t = t :=
  extend_of_nodup h

theorem mem_put {name : String} {entry : α} {t : Table α} {x : String × α}
    (h : x ∈ put name entry t) : x = (name, entry) ∨ x ∈ t := by
  induction t with
  | nil => exact .inl (List.mem_singleton.1 h)
  | cons head rest ih =>
    obtain ⟨n, e⟩ := head
    rw [put] at h
    split at h
    · next hn =>
      rcases List.mem_cons.1 h with h | h
      · exact .inl (hn ▸ h)
      · exact .inr (List.mem_cons_of_mem _ h)
    · rcases List.mem_cons.1 h with h | h
      · exact .inr (h ▸ List.mem_cons_self)
      · exact (ih h).imp_right (List.mem_cons_of_mem _)

/-- What is in an extended table was in one of the two. -/
theorem mem_extend {t other : Table α} {x : String × α} (h : x ∈ extend t other) :
    x ∈ t ∨ x ∈ other := by
  induction other generalizing t with
  | nil => exact .inl h
  | cons head rest ih =>
    rcases ih h with h | h
    · rcases mem_put h with rfl | h
      · exact .inr List.mem_cons_self
      · exact .inl h
    · exact .inr (List.mem_cons_of_mem _ h)

theorem nodup_extend {t other : Table α} (h : (names t).Nodup) :
    (names (extend t other)).Nodup := by
  induction other generalizing t with
  | nil => exact h
  | cons head rest ih => exact ih (nodup_put h)

/-- Tables extended by entries under the same names are related if the entries are. -/
theorem exists_get?_extend {P : α → β → Prop} {other : Table α} {other' : Table β}
    (hother : List.Forall₂ (fun a b => a.1 = b.1 ∧ P a.2 b.2) other other') {t : Table α}
    {t' : Table β} (ht : ∀ name a, get? t name = some a → ∃ b, get? t' name = some b ∧ P a b) :
    ∀ name a, get? (extend t other) name = some a →
      ∃ b, get? (extend t' other') name = some b ∧ P a b := by
  induction hother generalizing t t' with
  | nil => exact ht
  | @cons head head' rest rest' hhead _ ih =>
    refine ih fun name a ha => ?_
    rw [get?_put] at ha
    rw [get?_put, ← hhead.1]
    split at ha
    · next hname =>
      obtain rfl := Option.some.inj ha
      exact ⟨head'.2, if_pos hname, hhead.2⟩
    · next hname =>
      rw [if_neg hname]
      exact ht name a ha

/-! ## The table of some entries -/

theorem ofList_concat (entries : List (String × α)) (e : String × α) :
    ofList (entries ++ [e]) = put e.1 e.2 (ofList entries) := by
  simp [ofList, extend]

/-- The last entry of a name counts. -/
theorem get?_ofList (entries : List (String × α)) (name : String) :
    get? (ofList entries) name = get? entries.reverse name := by
  induction entries using List.reverseRecOn with
  | nil => rfl
  | append_singleton entries e ih =>
    rw [ofList_concat, get?_put, List.reverse_concat, get?_cons, ih]

/-- Names stand in the order in which they first occur. -/
theorem names_ofList (entries : List (String × α)) :
    names (ofList entries) = (names entries).eraseDups := by
  induction entries using List.reverseRecOn with
  | nil => rfl
  | append_singleton entries e ih =>
    have hnames : names (entries ++ [e]) = names entries ++ [e.1] := List.map_append
    rw [ofList_concat, hnames, List.eraseDups_append, ← ih]
    by_cases he : e.1 ∈ names (ofList entries)
    · have hmem : e.1 ∈ names entries := by rwa [ih, List.mem_eraseDups] at he
      rw [names_put_of_contains _ _ _ he]
      simp [List.removeAll, hmem]
    · have hmem : e.1 ∉ names entries := by rwa [ih, List.mem_eraseDups] at he
      rw [names_put_of_not_mem _ _ _ he]
      simp [List.removeAll, hmem, List.eraseDups_cons]

theorem nodup_ofList (entries : List (String × α)) : (names (ofList entries)).Nodup :=
  nodup_extend List.nodup_nil

theorem nodup_eraseDups (keys : List String) : keys.eraseDups.Nodup := by
  have hnames : names (keys.map fun key => (key, ())) = keys := by
    rw [names, List.map_map]
    exact List.map_id keys
  rw [← hnames, ← names_ofList]
  exact nodup_ofList _

end Table

end Intake
