import Intake.Proofs.Document.Operands
import Intake.Proofs.Json.Node
import Intake.Proofs.Value.Members
/-!
# Forms of written values

A value that is written as JSON is read as its form, if it is not nested too deep and its numbers
read back:

    Json.readForm (Json.compact v) = some (Json.formOf v)

What a JSON form says as a literal or as an argument, its written form says again
(`OfJson.literal`, `OfJson.argument`), with one exception: a literal that is an object of one
text under `ref` is written as a reference is, so it is read as one (`ArgSpec.settled`).
-/

namespace Intake

/-- Lists and objects are nested at most `depth` deep. -/
inductive Value.Within : Nat → Value → Prop
  | single {depth : Nat} {v : Value} (h : v.isComposite = false) : Within depth v
  | list {depth : Nat} {items : List Value} (h : ∀ v ∈ items, Within depth v) :
      Within (depth + 1) (.list items)
  | object {depth : Nat} {members : List (String × Value)} (h : ∀ m ∈ members, Within depth m.2) :
      Within (depth + 1) (.object members)

namespace Json

/-- The choice that an object may stand for. -/
def choiceOf : List (String × Value) → Option String
  | [(k, .null)] => some k
  | _ => none

mutual

/-- The form of a written value. -/
def formOf : Value → Form
  | .list items => .list (formsOf items) true true
  | .object members => .table (entriesOf members) (choiceOf members) true
  | v => scalarForm v

def formsOf : List Value → List Form
  | [] => []
  | v :: vs => formOf v :: formsOf vs

def entriesOf : List (String × Value) → List (FormKey × Form)
  | [] => []
  | (k, v) :: ms => (keyForm k, formOf v) :: entriesOf ms

end

theorem formsOf_eq_map (vs : List Value) : formsOf vs = vs.map formOf := by
  induction vs with
  | nil => rfl
  | cons v vs ih => rw [formsOf, ih, List.map_cons]

theorem entriesOf_eq_map (ms : List (String × Value)) :
    entriesOf ms = ms.map fun m => (keyForm m.1, formOf m.2) := by
  induction ms with
  | nil => rfl
  | cons m ms ih => rw [entriesOf, ih, List.map_cons]

theorem formOf_of_single {v : Value} (h : v.isComposite = false) : formOf v = scalarForm v := by
  cases v <;> first | rfl | cases h

/-! ## Reading a written value -/

theorem formItems_nodesOf {depth : Nat} {vs : List Value}
    (h : ∀ v ∈ vs, formAt depth (nodeOf v) = some (formOf v)) :
    formItems depth (nodesOf vs) = some (formsOf vs) := by
  induction vs with
  | nil => rfl
  | cons v vs ih =>
    obtain ⟨hv, hvs⟩ := List.forall_mem_cons.1 h
    simp [nodesOf, formItems, formsOf, hv, ih hvs]

theorem formMembers_memberNodesOf {depth : Nat} {ms : List (String × Value)}
    (h : ∀ m ∈ ms, formAt depth (nodeOf m.2) = some (formOf m.2)) :
    formMembers depth (memberNodesOf ms) = some (entriesOf ms) := by
  induction ms with
  | nil => rfl
  | cons m ms ih =>
    obtain ⟨hm, hms⟩ := List.forall_mem_cons.1 h
    simp [memberNodesOf, formMembers, entriesOf, keyForm, hm, ih hms]

theorem choice_memberNodesOf (ms : List (String × Value)) :
    (match memberNodesOf ms with
      | [(some k, .null)] => some k
      | _ => none) = choiceOf ms := by
  cases ms with
  | nil => rfl
  | cons m ms =>
    obtain ⟨k, v⟩ := m
    cases ms with
    | nil => cases v <;> rfl
    | cons m' ms => cases v <;> rfl

theorem formAt_nodeOf {depth : Nat} {v : Value} (h : v.Within depth) :
    formAt depth (nodeOf v) = some (formOf v) := by
  induction h with
  | @single depth v h => cases v <;> first | rfl | cases h
  | list _ ih =>
    rw [nodeOf, formAt, formItems_nodesOf ih]
    rfl
  | @object depth ms _ ih =>
    show (formMembers depth (memberNodesOf ms)).bind _ = _
    rw [formMembers_memberNodesOf ih, formOf, ← choice_memberNodesOf]
    rfl

/-- A written value is read as its form. -/
theorem readForm_compact {v : Value} (hn : ∀ n ∈ v.numbers, n.ReadsBack)
    (h : v.Within maxDepth) : readForm (compact v) = some (formOf v) := by
  rw [readForm, compact, String.toList_ofList, read_write v hn]
  exact formAt_nodeOf h

end Json

/-! ## Literals and arguments -/

theorem exists_of_forall₂ {α β : Type} {R : α → β → Prop} {as : List α} {bs : List β}
    (h : List.Forall₂ R as bs) {b : β} (hb : b ∈ bs) : ∃ a ∈ as, R a b := by
  induction h with
  | nil => cases hb
  | @cons a b' as bs hab _ ih =>
    rcases List.mem_cons.1 hb with rfl | hb
    · exact ⟨a, List.mem_cons_self, hab⟩
    · obtain ⟨a', ha', hab'⟩ := ih hb
      exact ⟨a', List.mem_cons_of_mem _ ha', hab'⟩

/-- A literal that is written as a reference is written is read as one. -/
def ArgSpec.settled : ArgSpec → ArgSpec
  | .literal (.object [("ref", .str dotted)]) => .reference dotted
  | a => a

theorem ArgSpec.settled_literal {v : Value} (h : ∀ dotted, v ≠ .object [("ref", .str dotted)]) :
    (ArgSpec.literal v).settled = .literal v := by
  unfold settled
  split
  · next dotted he => exact absurd (ArgSpec.literal.inj he) (h dotted)
  · rfl

namespace Json

theorem ofJson_formOf {depth : Nat} {v : Value} (h : v.Within depth) :
    (formOf v).OfJson depth := by
  induction h with
  | single h => exact formOf_of_single h ▸ .scalar h
  | list _ ih =>
    rw [formOf, formsOf_eq_map]
    exact .list (List.forall_mem_map.2 ih)
  | object _ ih =>
    rw [formOf, entriesOf_eq_map]
    exact .table (List.forall_mem_map.2 fun m _ => ⟨m.1, rfl⟩) (List.forall_mem_map.2 ih)

/-- Only null is written as what counts as left out. -/
theorem absent?_formOf {v : Value} (h : v ≠ .null) : (formOf v).absent? = some false := by
  cases v <;> first | rfl | exact absurd rfl h

theorem literal?_formOf_list {vs : List Value} (h : ∀ v ∈ vs, (formOf v).literal? = some v) :
    (formOf (.list vs)).literal? = some (.list vs) := by
  have hitems : Form.itemValues? (·.value.bind Value.asString?) (formsOf vs) = some vs := by
    induction vs with
    | nil => rfl
    | cons v vs ih =>
      obtain ⟨hv, hvs⟩ := List.forall_mem_cons.1 h
      have hv : (formOf v).valueWith (·.value.bind Value.asString?) = some v := hv
      simp [formsOf, Form.itemValues?, hv, ih hvs]
  simp [Form.literal?, formOf, Form.valueWith, hitems]

theorem literal?_formOf_object {ms : List (String × Value)}
    (h : ∀ m ∈ ms, (formOf m.2).literal? = some m.2) :
    (formOf (.object ms)).literal? = some (.ofMembers ms) := by
  have hmembers : Form.memberValues? (·.value.bind Value.asString?) (entriesOf ms) = some ms := by
    induction ms with
    | nil => rfl
    | cons m ms ih =>
      obtain ⟨hm, hms⟩ := List.forall_mem_cons.1 h
      have hm : (formOf m.2).valueWith (·.value.bind Value.asString?) = some m.2 := hm
      simp [entriesOf, Form.memberValues?, keyForm, Value.asString?, hm, ih hms]
  simp [Form.literal?, formOf, Form.valueWith, hmembers]

end Json

namespace Form.OfJson

open Json

variable {depth : Nat} {f : Form}

/-- The literal of a form is read again from its written form. -/
theorem literal (h : f.OfJson depth) {v : Value} (hv : f.literal? = some v) :
    v.Within depth ∧ (formOf v).literal? = some v := by
  induction h generalizing v with
  | scalar h =>
    obtain rfl := Option.some.inj hv
    exact ⟨.single h, by rw [formOf_of_single h]; rfl⟩
  | @list depth items _ ih =>
    obtain ⟨-, vs, hvs, rfl⟩ := literal?_list hv
    have hall : ∀ v ∈ vs, v.Within depth ∧ (formOf v).literal? = some v := by
      intro v hv
      obtain ⟨f, hf, hread⟩ := exists_of_forall₂ hvs hv
      exact ih f hf hread
    exact ⟨.list fun v hv => (hall v hv).1, literal?_formOf_list fun v hv => (hall v hv).2⟩
  | @table depth entries choice _ _ ih =>
    obtain ⟨-, members, rfl, hms⟩ := literal?_table hv
    -- what the form says twice is said once by the value
    have hall : ∀ m ∈ Value.sortMembers members, m.2.Within depth ∧
        (formOf m.2).literal? = some m.2 := by
      intro m hm
      obtain ⟨entry, hentry, hread⟩ := exists_of_forall₂ hms (Value.mem_of_mem_sortMembers hm)
      exact ih entry hentry hread.2
    refine ⟨.object fun m hm => (hall m hm).1, ?_⟩
    rw [Value.ofMembers, literal?_formOf_object fun m hm => (hall m hm).2, Value.ofMembers,
      (Value.sortedKeys_sortMembers members).sortMembers_eq]

/-- A literal that does not count as left out is not null. -/
theorem literal_ne_null (h : f.OfJson depth) {v : Value} (hv : f.literal? = some v)
    (hpresent : f.absent? = some false) : v ≠ .null := by
  rintro rfl
  cases h with
  | scalar h =>
    obtain rfl := Option.some.inj hv
    cases hpresent
  | list _ =>
    obtain ⟨-, vs, -, he⟩ := literal?_list hv
    cases he
  | table _ _ =>
    obtain ⟨-, members, he, -⟩ := literal?_table hv
    cases he

/-- A form that is a reference is a list or an object. -/
theorem reference (h : f.OfJson depth) {dotted : String} (href : f.reference? = some dotted) :
    ((ArgSpec.reference dotted).toValue).Within depth := by
  cases h with
  | scalar _ => cases href
  | list _ => exact .object (List.forall_mem_singleton.2 (.single rfl))
  | table _ _ => exact .object (List.forall_mem_singleton.2 (.single rfl))

/-- The argument of a form is read again from its written form, but for a literal that is written
as a reference. -/
theorem argument (h : f.OfJson depth) {a : ArgSpec} (ha : f.argument? = some a) :
    a.toValue.Within depth ∧ (formOf a.toValue).argument? = some a.settled ∧
      (f.absent? = some false → a.toValue ≠ .null) := by
  unfold argument? at ha
  cases href : f.reference? with
  | some dotted =>
    rw [href] at ha
    obtain rfl := Option.some.inj ha
    exact ⟨h.reference href, rfl, fun _ => nofun⟩
  | none =>
    rw [href] at ha
    obtain ⟨v, hv, rfl⟩ := Option.map_eq_some_iff.1 ha
    obtain ⟨hwithin, hliteral⟩ := h.literal hv
    refine ⟨hwithin, ?_, h.literal_ne_null hv⟩
    have hnames : ∀ dotted, (formOf v).reference? = some dotted ↔
        (formOf v).Names v dotted := fun _ =>
      reference?_eq_some_iff (ofJson_formOf hwithin).plain hliteral
    show (formOf v).argument? = _
    unfold argument?
    by_cases hposing : ∃ dotted, v = .object [("ref", .str dotted)]
    · obtain ⟨dotted, rfl⟩ := hposing
      rfl
    · have hplain : ∀ dotted, v ≠ .object [("ref", .str dotted)] := fun dotted he =>
        hposing ⟨dotted, he⟩
      have hnone : (formOf v).reference? = none := by
        refine Option.eq_none_iff_forall_ne_some.2 fun dotted hdotted => ?_
        rcases (hnames dotted).1 hdotted with rfl | ⟨he, -⟩
        · exact absurd ((reference?_eq_some_iff h.plain hv).2 (.inl rfl)) (by rw [href]; nofun)
        · exact hplain dotted he
      rw [hnone, hliteral, ArgSpec.settled_literal hplain]
      rfl

end Form.OfJson

/-! ## Records -/

/-- The members of a JSON record are forms of JSON, one level down. -/
theorem Form.OfJson.members {depth : Nat} {f : Form} (h : f.OfJson depth) {names : List String}
    {ms : List (String × Form)} (hms : f.members? names = some ms) :
    ∃ inner, depth = inner + 1 ∧ ∀ m ∈ ms, m.2.OfJson inner := by
  cases h with
  | scalar _ => cases hms
  | @list depth items hitems =>
    rw [members?] at hms
    split at hms
    · obtain rfl := Option.some.inj hms
      exact ⟨depth, rfl, fun m hm => hitems m.2 (List.of_mem_zip hm).2⟩
    · cases hms
  | table _ hentries => exact ⟨_, rfl, forall_of_membersOfEntries hentries hms⟩

namespace Json

/-- A written record is paired with the names of its members again. -/
theorem members?_formOf {names : List String} (hnodup : names.Nodup)
    {ms : List (String × Value)} (h : (Table.names ms).Sublist names) :
    (formOf (.object ms)).members? names = some (ms.map fun m => (m.1, formOf m.2)) := by
  have hentries : Form.membersOfEntries names (entriesOf ms) =
      some (ms.map fun m => (m.1, formOf m.2)) := by
    have hkeys : (Table.names ms).Nodup := h.nodup hnodup
    have hsubset : ∀ m ∈ ms, m.1 ∈ names := fun m hm => h.subset (List.mem_map_of_mem hm)
    clear h
    induction ms with
    | nil => rfl
    | cons m ms ih =>
      obtain ⟨hm, hms⟩ := List.forall_mem_cons.1 hsubset
      obtain ⟨hfresh, hkeys⟩ := List.nodup_cons.1 hkeys
      have hothers : ∀ v, (m.1, v) ∉ ms := fun v hv =>
        hfresh (List.mem_map.2 ⟨(m.1, v), hv, rfl⟩)
      simp only [entriesOf, keyForm, Form.membersOfEntries, ih hkeys hms]
      simpa [hm] using hothers
  exact hentries

/-- A member of a written record is missing, or read from what is written. -/
theorem member_formOf {α : Type} (ms : List (String × Value)) (name : String) (missing : Option α)
    (read : Form → Option α) :
    Form.member (ms.map fun m => (m.1, formOf m.2)) name missing read =
      (Table.get? ms name).elim missing fun v => read (formOf v) := by
  unfold Form.member
  rw [show List.lookup name (ms.map fun m => (m.1, formOf m.2)) = (Table.get? ms name).map formOf
    from Table.get?_map formOf ms name]
  cases Table.get? ms name <;> rfl

end Json

section

variable {name : String} {v : Option Value}

theorem get?_optionalMember (name : String) (v : Option Value) (other : String) :
    Table.get? (optionalMember name v) other = if other = name then v else none := by
  cases v with
  | none => simp [optionalMember, Table.get?_nil]
  | some v => simp [optionalMember, Table.get?_cons, Table.get?_nil]

theorem names_optionalMember (name : String) (v : Option Value) :
    (Table.names (optionalMember name v)).Sublist [name] := by
  cases v with
  | none => exact List.nil_sublist _
  | some v => exact List.Sublist.refl _

theorem forall_mem_optionalMember {P : String × Value → Prop} :
    (∀ m ∈ optionalMember name v, P m) ↔ ∀ w, v = some w → P (name, w) := by
  cases v <;> simp [optionalMember]

end

end Intake
