import Intake.Proofs.Document.Build
import Intake.Proofs.Document.Written
/-!
# Documents that are written and read again

A document that was read from JSON is written in its normal form, and read again it is the same
document (`settled`), but for literals that are written as references are:

    readDocument source (Json.compact d.toValue) = .ok d.settled
    d.settled.toValue = d.toValue

So the normal form is the text of a document with that normal form.  Nothing is lost exactly if no
argument and no default of the document is such a literal.
-/

namespace Intake

/-! ## Settled documents -/

def StepSpec.settled (s : StepSpec) : StepSpec := { s with args := s.args.map (·.settled) }

namespace FieldSpec

mutual

/-- The field with the references that its written form has. -/
def settled : FieldSpec → FieldSpec
  | mk type required forbidden default? label steps items fields unknownKeys path outputFormat =>
    mk type required forbidden (default?.map (·.settled)) label (steps.map (·.settled))
      (settledItems items) (settledFields fields) unknownKeys path outputFormat

def settledItems : Option FieldSpec → Option FieldSpec
  | none => none
  | some items => some (settled items)

def settledFields : List (String × FieldSpec) → List (String × FieldSpec)
  | [] => []
  | (name, field) :: rest => (name, settled field) :: settledFields rest

end

mutual

/-- The defaults and arguments of a field and of those that it holds. -/
def arguments : FieldSpec → List ArgSpec
  | mk _ _ _ default? _ steps items fields _ _ _ =>
    default?.toList ++ steps.flatMap (·.args) ++ itemArguments items ++ fieldArguments fields

def itemArguments : Option FieldSpec → List ArgSpec
  | none => []
  | some items => arguments items

def fieldArguments : List (String × FieldSpec) → List ArgSpec
  | [] => []
  | (_, field) :: rest => arguments field ++ fieldArguments rest

end

end FieldSpec

theorem map_eq_self_iff {α : Type} {f : α → α} {l : List α} :
    l.map f = l ↔ ∀ a ∈ l, f a = a := by
  simpa using List.map_inj_left (f := f) (g := id) (l := l)

def SchemaDocument.settled (d : SchemaDocument) : SchemaDocument :=
  { d with schema := d.schema.settled }

theorem ArgSpec.settled_eq_iff {a : ArgSpec} :
    a.settled = a ↔ ∀ dotted, a ≠ .literal (.object [("ref", .str dotted)]) := by
  constructor
  · rintro h dotted rfl
    cases h
  · intro h
    cases a with
    | reference => rfl
    | literal v => exact settled_literal fun dotted he => h dotted (congrArg _ he)

theorem ArgSpec.toValue_settled (a : ArgSpec) : a.settled.toValue = a.toValue := by
  unfold settled
  split <;> rfl

theorem StepSpec.toValue_settled (s : StepSpec) : s.settled.toValue = s.toValue := by
  simp [toValue, settled, Function.comp_def, ArgSpec.toValue_settled]

theorem StepSpec.settled_eq_iff {s : StepSpec} :
    s.settled = s ↔ ∀ a ∈ s.args, a.settled = a := by
  obtain ⟨name, args, prioritize⟩ := s
  rw [← map_eq_self_iff, settled, mk.injEq, eq_self, eq_self, true_and, and_true]

namespace FieldSpec

mutual

theorem toValue_settled (s : FieldSpec) : s.settled.toValue = s.toValue := by
  obtain ⟨type, required, forbidden, default?, label, steps, items, fields, unknownKeys, path,
    outputFormat⟩ := s
  have hfields : (settledFields fields).isEmpty = fields.isEmpty := by cases fields <;> rfl
  simp only [settled, toValue, itemsValue_settledItems items, fieldsValue_settledFields fields,
    hfields]
  simp [Function.comp_def, ArgSpec.toValue_settled, StepSpec.toValue_settled]

theorem itemsValue_settledItems (items : Option FieldSpec) :
    itemsValue (settledItems items) = itemsValue items := by
  cases items with
  | none => rfl
  | some items => rw [settledItems, itemsValue, itemsValue, toValue_settled items]

theorem fieldsValue_settledFields (fields : List (String × FieldSpec)) :
    fieldsValue (settledFields fields) = fieldsValue fields := by
  cases fields with
  | nil => rfl
  | cons field rest =>
    obtain ⟨name, field⟩ := field
    rw [settledFields, fieldsValue, fieldsValue, toValue_settled field,
      fieldsValue_settledFields rest]

end

mutual

theorem settled_eq_iff (s : FieldSpec) : s.settled = s ↔ ∀ a ∈ s.arguments, a.settled = a := by
  obtain ⟨type, required, forbidden, default?, label, steps, items, fields, unknownKeys, path,
    outputFormat⟩ := s
  have hdefault : default?.map (·.settled) = default? ↔ ∀ a ∈ default?.toList, a.settled = a := by
    cases default? <;> simp
  have hsteps : steps.map (·.settled) = steps ↔ ∀ a ∈ steps.flatMap (·.args), a.settled = a := by
    simp only [map_eq_self_iff, StepSpec.settled_eq_iff, List.forall_mem_flatMap]
  simp only [settled, arguments, mk.injEq, true_and, and_true, List.forall_mem_append, hdefault,
    hsteps, settledItems_eq_iff items, settledFields_eq_iff fields, and_assoc]

theorem settledItems_eq_iff (items : Option FieldSpec) :
    settledItems items = items ↔ ∀ a ∈ itemArguments items, a.settled = a := by
  cases items with
  | none => simp [settledItems, itemArguments]
  | some items => rw [settledItems, itemArguments, Option.some.injEq, settled_eq_iff items]

theorem settledFields_eq_iff (fields : List (String × FieldSpec)) :
    settledFields fields = fields ↔ ∀ a ∈ fieldArguments fields, a.settled = a := by
  cases fields with
  | nil => simp [settledFields, fieldArguments]
  | cons field rest =>
    obtain ⟨name, field⟩ := field
    simp only [settledFields, fieldArguments, List.cons.injEq, Prod.mk.injEq, true_and,
      List.forall_mem_append, settled_eq_iff field, settledFields_eq_iff rest]

end

end FieldSpec

/-! ## Members of a record -/

open Json (formOf)

theorem mapM_map_eq_some {α β γ : Type} {f : β → Option γ} {g : α → β} {k : α → γ} {l : List α}
    (h : ∀ a ∈ l, f (g a) = some (k a)) : (l.map g).mapM f = some (l.map k) := by
  induction l with
  | nil => rfl
  | cons a rest ih =>
    obtain ⟨ha, hrest⟩ := List.forall_mem_cons.1 h
    rw [List.map_cons, List.mapM_cons, ha, ih hrest]
    rfl

/-- What is written of `a` is not too deep, and it is read again as what `a` settles to. -/
structure Rereads {α : Type} (read : Form → Option α) (write : α → Value) (settle : α → α)
    (depth : Nat) (a : α) : Prop where
  within : (write a).Within depth
  read_eq : read (formOf (write a)) = some (settle a)

section

variable {α : Type} {read : Form → Option α} {write : α → Value} {settle : α → α} {inner : Nat}
  {ms : List (String × Form)} {name : String} {as : List α}

/-- The items that were read of a list. -/
theorem rereads_of_listed (hms : ∀ m ∈ ms, m.2.OfJson inner)
    (hitem : ∀ {depth f a}, f.OfJson depth → read f = some a → Rereads read write settle depth a)
    (h : Form.member ms name (some []) (fun f => f.items? >>= (·.mapM read)) = some as) :
    ∀ a ∈ as, ∃ depth, inner = depth + 1 ∧ Rereads read write settle depth a := by
  rcases Form.member_cases h with ⟨-, has⟩ | ⟨g, hg, has⟩
  · exact Option.some.inj has ▸ fun _ ha => absurd ha List.not_mem_nil
  · obtain ⟨fs, hfs, has⟩ := Option.bind_eq_some_iff.1 has
    cases hms _ (Table.mem_of_get? hg) with
    | scalar _ => cases hfs
    | table _ _ => cases hfs
    | @list depth items hitems =>
      obtain rfl := Option.some.inj hfs
      intro a ha
      obtain ⟨f, hf, hread⟩ := exists_of_forall₂ (forall₂_of_mapM has) ha
      exact ⟨depth, rfl, hitem (hitems f hf) hread⟩

variable (h : ∀ a ∈ as, ∃ depth, inner = depth + 1 ∧ Rereads read write settle depth a)

include h

theorem within_of_listed {w : Value}
    (hw : (if as.isEmpty then none else some (Value.list (as.map write))) = some w) :
    w.Within inner := by
  cases as with
  | nil => cases hw
  | cons a rest =>
    obtain rfl := Option.some.inj hw
    obtain ⟨depth, rfl, -⟩ := h a List.mem_cons_self
    refine .list (List.forall_mem_map.2 fun b hb => ?_)
    obtain ⟨depth', he, hb⟩ := h b hb
    exact Nat.succ.inj he ▸ hb.within

/-- A list is left out if it is empty, and read item by item if it is not. -/
theorem read_listed :
    ((if as.isEmpty then none else some (Value.list (as.map write))).elim (some []) fun v =>
      (formOf v).items? >>= (·.mapM read)) = some (as.map settle) := by
  have hall : ∀ a ∈ as, read (formOf (write a)) = some (settle a) := by
    intro a ha
    obtain ⟨_, _, hread⟩ := h a ha
    exact hread.read_eq
  cases as with
  | nil => rfl
  | cons a rest =>
    show (Json.formsOf ((a :: rest).map write)).mapM read = _
    rw [Json.formsOf_eq_map, List.map_map]
    exact mapM_map_eq_some hall

end

/-! ## Steps -/

theorem StepSpec.rereads {depth : Nat} {f : Form} {s : StepSpec} (hf : f.OfJson depth)
    (hs : StepSpec.ofForm? f = some s) :
    Rereads StepSpec.ofForm? toValue settled depth s := by
  simp only [StepSpec.ofForm?, Option.bind_eq_bind, Option.bind_eq_some_iff] at hs
  obtain ⟨ms, hms, name, -, args, hargs, prioritize, -, hs⟩ := hs
  obtain rfl := Option.some.inj hs
  obtain ⟨inner, rfl, hinner⟩ := hf.members hms
  have hargs : ∀ a ∈ args, ∃ depth, inner = depth + 1 ∧
      Rereads Form.argument? ArgSpec.toValue ArgSpec.settled depth a :=
    rereads_of_listed hinner (fun hf ha => ⟨(hf.argument ha).1, (hf.argument ha).2.1⟩) hargs
  refine ⟨?within, ?read⟩
  case within =>
    refine .object (List.forall_mem_append.2 ⟨List.forall_mem_cons.2 ⟨.single rfl, ?_⟩, ?_⟩)
    · exact forall_mem_optionalMember.2 fun w hw => within_of_listed hargs hw
    · exact List.forall_mem_singleton.2 (.single rfl)
  case read =>
    have hnames : (Table.names (("name", .str name) :: optionalMember "args"
        (if args.isEmpty then none else some (.list (args.map (·.toValue))))
          ++ [("prioritize", .bool prioritize)])).Sublist ["name", "args", "prioritize"] := by
      rw [Table.names, List.map_append]
      exact ((names_optionalMember _ _).cons_cons _).append (List.Sublist.refl _)
    refine Option.bind_eq_some_iff.2 ⟨_, Json.members?_formOf (by decide) hnames, ?_⟩
    simp only [Json.member_formOf, List.cons_append, Table.get?_cons, Table.get?_append,
      get?_optionalMember, Table.get?_nil, String.reduceEq, reduceIte, Option.none_or,
      Option.or_none]
    refine Option.bind_eq_some_iff.2 ⟨name, rfl, ?_⟩
    refine Option.bind_eq_some_iff.2 ⟨_, read_listed hargs, ?_⟩
    exact Option.bind_eq_some_iff.2 ⟨prioritize, rfl, rfl⟩

/-! ## Fields -/

theorem Form.optional_eq_some_some {α : Type} {read : Form → Option α} {f : Form} {a : α} :
    Form.optional read f = some (some a) ↔ f.absent? = some false ∧ read f = some a := by
  unfold Form.optional
  cases f.absent? with
  | none => simp
  | some left => cases left <;> simp

/-- An optional text is read as it was written. -/
theorem read_optional_text (text : Option String) :
    (text.map Value.str).elim (some none) (fun v => Form.optional Form.text? (formOf v)) =
      some text := by
  cases text <;> rfl

/-- An optional policy is read as it was written. -/
theorem read_optional_unknownKeys (policy : Option UnknownKeys) :
    (policy.map fun p => Value.str p.name).elim (some none)
      (fun v => Form.optional UnknownKeys.ofForm? (formOf v)) = some policy := by
  cases policy with
  | none => rfl
  | some p => cases p <;> rfl

theorem within_of_single {α : Type} {write : α → Value} (hwrite : ∀ a, (write a).isComposite = false)
    {depth : Nat} (o : Option α) : ∀ w, o.map write = some w → w.Within depth := by
  intro w hw
  obtain ⟨a, -, rfl⟩ := Option.map_eq_some_iff.1 hw
  exact .single (hwrite a)

namespace FieldSpec

theorem fieldsValue_eq_map (fields : List (String × FieldSpec)) :
    fieldsValue fields = fields.map fun e => (e.1, e.2.toValue) := by
  induction fields with
  | nil => rfl
  | cons field rest ih => rw [fieldsValue, ih, List.map_cons]

theorem settledFields_eq_map (fields : List (String × FieldSpec)) :
    settledFields fields = fields.map fun e => (e.1, e.2.settled) := by
  induction fields with
  | nil => rfl
  | cons field rest ih => rw [settledFields, ih, List.map_cons]

theorem absent?_toValue (s : FieldSpec) : (formOf s.toValue).absent? = some false := by
  obtain ⟨_, _, _, _, _, _, _, _, _, _, _⟩ := s
  rfl

/-- What a field holds is read again: its default, its steps, and its fields. -/
structure Legible (fuel inner : Nat) (default? : Option ArgSpec) (steps : List StepSpec)
    (items : Option FieldSpec) (fields : List (String × FieldSpec)) : Prop where
  default_read : ∀ a, default? = some a → a.toValue.Within inner ∧
    Form.optional Form.argument? (formOf a.toValue) = some (some a.settled)
  steps_read : ∀ s ∈ steps, ∃ depth, inner = depth + 1 ∧
    Rereads StepSpec.ofForm? StepSpec.toValue StepSpec.settled depth s
  items_read : ∀ s, items = some s → Rereads (ofForm? fuel) toValue settled inner s
  nodup : (Table.names fields).Nodup
  fields_read : ∀ e ∈ fields, ∃ depth, inner = depth + 1 ∧
    Rereads (ofForm? fuel) toValue settled depth e.2

section

variable {fuel inner : Nat} {ms : List (String × Form)}

/-- The fields that were read of an object. -/
theorem legible_fields (hms : ∀ m ∈ ms, m.2.OfJson inner)
    (ih : ∀ {depth f s}, f.OfJson depth → ofForm? fuel f = some s →
      Rereads (ofForm? fuel) toValue settled depth s) {fields : List (String × FieldSpec)}
    (h : Form.member ms "fields" (some []) (fun f => do
      let entries ← f.entries?
      let specs ← entries.mapM fun (name, f) => (ofForm? fuel f).map (name, ·)
      return Table.ofList specs) = some fields) :
    (Table.names fields).Nodup ∧ ∀ e ∈ fields, ∃ depth, inner = depth + 1 ∧
      Rereads (ofForm? fuel) toValue settled depth e.2 := by
  rcases Form.member_cases h with ⟨-, he⟩ | ⟨g, hg, he⟩
  · exact Option.some.inj he ▸ ⟨List.nodup_nil, fun _ he => absurd he List.not_mem_nil⟩
  · obtain ⟨entries, hentries, he⟩ := Option.bind_eq_some_iff.1 he
    obtain ⟨specs, hspecs, he⟩ := Option.bind_eq_some_iff.1 he
    obtain rfl := Option.some.inj he
    refine ⟨Table.nodup_extend List.nodup_nil, ?_⟩
    cases hms _ (Table.mem_of_get? hg) with
    | scalar _ => cases hentries
    | list _ => cases hentries
    | @table depth forms choice _ hforms =>
      intro e he
      have hspec : e ∈ specs := (Table.mem_extend he).resolve_left List.not_mem_nil
      obtain ⟨entry, hentry, hread⟩ := exists_of_forall₂ (forall₂_of_mapM hspecs) hspec
      obtain ⟨s, hs, rfl⟩ := Option.map_eq_some_iff.1 hread
      obtain ⟨form, hform, hpair⟩ := exists_of_forall₂ (forall₂_of_mapM hentries) hentry
      obtain ⟨name, -, rfl⟩ := Option.map_eq_some_iff.1 hpair
      exact ⟨depth, rfl, ih (hforms form hform) hs⟩

variable {default? : Option ArgSpec} {steps : List StepSpec} {items : Option FieldSpec}
  {fields : List (String × FieldSpec)}

theorem within_fields (h : ∀ e ∈ fields, ∃ depth, inner = depth + 1 ∧
      Rereads (ofForm? fuel) toValue settled depth e.2) {w : Value}
    (hw : (if fields.isEmpty then none else some (Value.object (fieldsValue fields))) = some w) :
    w.Within inner := by
  cases fields with
  | nil => cases hw
  | cons e rest =>
    obtain rfl := Option.some.inj hw
    obtain ⟨depth, rfl, -⟩ := h e List.mem_cons_self
    rw [fieldsValue_eq_map]
    refine .object (List.forall_mem_map.2 fun e' he' => ?_)
    obtain ⟨depth', he, hread⟩ := h e' he'
    exact Nat.succ.inj he ▸ hread.within

/-- Fields are left out if there are none, and keep their order if there are. -/
theorem read_fields (hnodup : (Table.names fields).Nodup)
    (h : ∀ e ∈ fields, ∃ depth, inner = depth + 1 ∧
      Rereads (ofForm? fuel) toValue settled depth e.2) :
    ((if fields.isEmpty then none else some (Value.object (fieldsValue fields))).elim (some [])
      fun v => do
        let entries ← (formOf v).entries?
        let specs ← entries.mapM fun (name, f) => (ofForm? fuel f).map (name, ·)
        return Table.ofList specs) = some (settledFields fields) := by
  have hall : ∀ e ∈ fields, ofForm? fuel (formOf e.2.toValue) = some e.2.settled := by
    intro e he
    obtain ⟨_, _, hread⟩ := h e he
    exact hread.read_eq
  have hentries : (formOf (.object (fieldsValue fields))).entries? =
      some (fields.map fun e => (e.1, formOf e.2.toValue)) := by
    show (Json.entriesOf (fieldsValue fields)).mapM _ = _
    rw [Json.entriesOf_eq_map, fieldsValue_eq_map, List.map_map]
    exact mapM_map_eq_some fun _ _ => rfl
  have hspecs : (fields.map fun e => (e.1, formOf e.2.toValue)).mapM
      (fun (name, f) => (ofForm? fuel f).map (name, ·)) = some (settledFields fields) := by
    rw [settledFields_eq_map]
    refine mapM_map_eq_some fun e he => ?_
    show (ofForm? fuel (formOf e.2.toValue)).map _ = _
    rw [hall e he]
    rfl
  have hnames : (Table.names (settledFields fields)).Nodup := by
    rw [settledFields_eq_map, Table.names, Table.names_map]
    exact hnodup
  cases fields with
  | nil => rfl
  | cons e rest =>
    refine Option.bind_eq_some_iff.2 ⟨_, hentries, Option.bind_eq_some_iff.2 ⟨_, hspecs, ?_⟩⟩
    exact congrArg some (Table.ofList_of_nodup hnames)

/-- The members of a written field are members that are read, in their order. -/
theorem names_of_toValue (s : FieldSpec) {ms : List (String × Value)}
    (h : s.toValue = .object ms) : (Table.names ms).Sublist memberNames := by
  obtain ⟨type, required, forbidden, default?, label, steps, items, fields, unknownKeys, path,
    outputFormat⟩ := s
  rw [toValue] at h
  obtain rfl := Value.object.inj h
  simp only [Table.names, List.map_append]
  exact (((((((((List.Sublist.refl _).append (names_optionalMember _ _)).append
    (names_optionalMember _ _)).append (names_optionalMember _ _)).append
    (names_optionalMember _ _)).append (names_optionalMember _ _)).append
    (names_optionalMember _ _)).append (names_optionalMember _ _)).append
    (names_optionalMember _ _))

section

variable (h : Legible fuel inner default? steps items fields) (type : String)
  (required forbidden : Bool) (label : Option String) (unknownKeys : Option UnknownKeys)
  (path outputFormat : Option String)

include h

theorem Legible.within : (toValue (.mk type required forbidden default? label steps items fields
    unknownKeys path outputFormat)).Within (inner + 1) := by
  rw [toValue]
  refine .object ?_
  simp only [List.forall_mem_append, forall_mem_optionalMember, List.forall_mem_cons]
  have hdefault : ∀ w, default?.map (·.toValue) = some w → w.Within inner := by
    intro w hw
    obtain ⟨a, ha, rfl⟩ := Option.map_eq_some_iff.1 hw
    exact (h.default_read a ha).1
  have hitems : ∀ w, itemsValue items = some w → w.Within inner := by
    intro w hw
    cases items with
    | none => cases hw
    | some s => exact Option.some.inj hw ▸ (h.items_read s rfl).within
  have htext : ∀ (o : Option String) w, o.map Value.str = some w → w.Within inner :=
    within_of_single fun _ => rfl
  exact ⟨⟨⟨⟨⟨⟨⟨⟨⟨.single rfl, .single rfl, .single rfl, List.forall_mem_nil _⟩, hdefault⟩,
    htext label⟩, fun w hw => within_of_listed h.steps_read hw⟩, hitems⟩,
    fun w hw => within_fields h.fields_read hw⟩, within_of_single (fun _ => rfl) unknownKeys⟩,
    htext path⟩, htext outputFormat⟩

theorem Legible.read_eq : ofForm? (fuel + 1) (formOf (toValue (.mk type required forbidden default?
    label steps items fields unknownKeys path outputFormat))) =
      some (settled (.mk type required forbidden default? label steps items fields unknownKeys path
        outputFormat)) := by
  have hnames := names_of_toValue (.mk type required forbidden default? label steps items fields
    unknownKeys path outputFormat) rfl
  refine Option.bind_eq_some_iff.2 ⟨_, Json.members?_formOf (by decide) hnames, ?_⟩
  simp only [Json.member_formOf, List.cons_append, Table.get?_cons, Table.get?_append,
    get?_optionalMember, Table.get?_nil, String.reduceEq, reduceIte, Option.none_or,
    Option.or_none]
  have hdefault : (default?.map (·.toValue)).elim (some none)
      (fun v => Form.optional Form.argument? (formOf v)) = some (default?.map (·.settled)) := by
    cases default? with
    | none => rfl
    | some a => exact (h.default_read a rfl).2
  have hitems : (itemsValue items).elim (some none)
      (fun v => Form.optional (ofForm? fuel) (formOf v)) = some (settledItems items) := by
    cases items with
    | none => rfl
    | some s =>
      exact Form.optional_eq_some_some.2 ⟨absent?_toValue s, (h.items_read s rfl).read_eq⟩
  refine Option.bind_eq_some_iff.2 ⟨type, rfl, ?_⟩
  refine Option.bind_eq_some_iff.2 ⟨required, rfl, ?_⟩
  refine Option.bind_eq_some_iff.2 ⟨forbidden, rfl, ?_⟩
  refine Option.bind_eq_some_iff.2 ⟨_, hdefault, ?_⟩
  refine Option.bind_eq_some_iff.2 ⟨label, read_optional_text label, ?_⟩
  refine Option.bind_eq_some_iff.2 ⟨_, read_listed h.steps_read, ?_⟩
  refine Option.bind_eq_some_iff.2 ⟨_, hitems, ?_⟩
  refine Option.bind_eq_some_iff.2 ⟨_, read_fields h.nodup h.fields_read, ?_⟩
  refine Option.bind_eq_some_iff.2 ⟨unknownKeys, read_optional_unknownKeys unknownKeys, ?_⟩
  refine Option.bind_eq_some_iff.2 ⟨path, read_optional_text path, ?_⟩
  refine Option.bind_eq_some_iff.2 ⟨outputFormat, read_optional_text outputFormat, ?_⟩
  rw [settled]
  rfl

end

end

/-- A field is written no deeper than it was read, and is read again. -/
theorem rereads {fuel depth : Nat} {f : Form} {s : FieldSpec} (hf : f.OfJson depth)
    (hs : ofForm? fuel f = some s) : Rereads (ofForm? fuel) toValue settled depth s := by
  induction fuel generalizing depth f s with
  | zero => cases hs
  | succ fuel ih =>
    obtain ⟨ms, hms, hs⟩ := Option.bind_eq_some_iff.1 hs
    obtain ⟨type, -, hs⟩ := Option.bind_eq_some_iff.1 hs
    obtain ⟨required, -, hs⟩ := Option.bind_eq_some_iff.1 hs
    obtain ⟨forbidden, -, hs⟩ := Option.bind_eq_some_iff.1 hs
    obtain ⟨default?, hdefault, hs⟩ := Option.bind_eq_some_iff.1 hs
    obtain ⟨label, -, hs⟩ := Option.bind_eq_some_iff.1 hs
    obtain ⟨steps, hsteps, hs⟩ := Option.bind_eq_some_iff.1 hs
    obtain ⟨items, hitems, hs⟩ := Option.bind_eq_some_iff.1 hs
    obtain ⟨fields, hfields, hs⟩ := Option.bind_eq_some_iff.1 hs
    obtain ⟨unknownKeys, -, hs⟩ := Option.bind_eq_some_iff.1 hs
    obtain ⟨path, -, hs⟩ := Option.bind_eq_some_iff.1 hs
    obtain ⟨outputFormat, -, hs⟩ := Option.bind_eq_some_iff.1 hs
    obtain rfl := Option.some.inj hs
    obtain ⟨inner, rfl, hinner⟩ := hf.members hms
    have part : ∀ {α : Type} {name : String} {read : Form → Option α} {a : α},
        Form.member ms name (some none) (Form.optional read) = some (some a) →
        ∃ g, g.OfJson inner ∧ g.absent? = some false ∧ read g = some a := by
      intro α name read a ha
      rcases Form.member_cases ha with ⟨-, hnone⟩ | ⟨g, hg, hread⟩
      · cases hnone
      · exact ⟨g, hinner _ (Table.mem_of_get? hg), Form.optional_eq_some_some.1 hread⟩
    obtain ⟨hnodup, hfields⟩ := legible_fields hinner ih hfields
    have hparts : Legible fuel inner default? steps items fields := by
      refine ⟨?default, rereads_of_listed hinner StepSpec.rereads hsteps, ?items, hnodup, hfields⟩
      case default =>
        rintro a rfl
        obtain ⟨g, hg, habsent, hread⟩ := part hdefault
        obtain ⟨hwithin, hagain, hnull⟩ := hg.argument hread
        exact ⟨hwithin, Form.optional_eq_some_some.2 ⟨Json.absent?_formOf (hnull habsent), hagain⟩⟩
      case items =>
        rintro s rfl
        obtain ⟨g, hg, -, hread⟩ := part hitems
        exact ih hg hread
    exact ⟨hparts.within .., hparts.read_eq ..⟩

end FieldSpec

/-! ## The main result -/

theorem SchemaDocument.rereads {depth : Nat} {f : Form} {d : SchemaDocument} (hf : f.OfJson depth)
    (hd : SchemaDocument.ofForm? f = some d) :
    Rereads SchemaDocument.ofForm? toValue settled depth d := by
  obtain ⟨ms, hms, hd⟩ := Option.bind_eq_some_iff.1 hd
  obtain ⟨unknownKeys, -, hd⟩ := Option.bind_eq_some_iff.1 hd
  obtain ⟨schema, hschema, hd⟩ := Option.bind_eq_some_iff.1 hd
  obtain rfl := Option.some.inj hd
  obtain ⟨inner, rfl, hinner⟩ := hf.members hms
  rcases Form.member_cases hschema with ⟨-, hnone⟩ | ⟨g, hg, hschema⟩
  · cases hnone
  have hg := hinner _ (Table.mem_of_get? hg)
  have hreads := FieldSpec.rereads hg hschema
  refine ⟨?within, ?read⟩
  case within =>
    -- the form of the schema is a record itself, so there is room for the options
    obtain ⟨depth, rfl⟩ : ∃ depth, inner = depth + 1 := by
      obtain ⟨fuel, hfuel⟩ : ∃ fuel, Form.maxDepth = fuel + 1 := ⟨199, rfl⟩
      rw [hfuel] at hschema
      obtain ⟨members, hmembers, -⟩ := Option.bind_eq_some_iff.1 hschema
      obtain ⟨depth, hdepth, -⟩ := hg.members hmembers
      exact ⟨depth, hdepth⟩
    have hoptions : (Value.object [("unknown_keys", .str unknownKeys.name)]).Within (depth + 1) :=
      .object (List.forall_mem_singleton.2 (.single rfl))
    exact .object (List.forall_mem_cons.2
      ⟨hoptions, List.forall_mem_singleton.2 hreads.within⟩)
  case read =>
    refine Option.bind_eq_some_iff.2 ⟨unknownKeys, ?_, ?_⟩
    · cases unknownKeys <;> rfl
    · exact Option.bind_eq_some_iff.2 ⟨_, hreads.read_eq, rfl⟩

/-- A document that was read from JSON is written so that it is read again as the document that it
settles to, which is written in the same way; it is the document itself exactly if none of its
arguments is a literal that is written as a reference. -/
theorem reread_document {source text : String} {d : SchemaDocument}
    (h : TextFormat.json.readDocument source text = .ok d)
    (hn : ∀ n ∈ d.toValue.numbers, n.ReadsBack) (again : String) :
    TextFormat.json.readDocument again (Json.compact d.toValue) = .ok d.settled ∧
      d.settled.toValue = d.toValue ∧
      (d.settled = d ↔ ∀ a ∈ d.schema.arguments, ∀ dotted,
        a ≠ .literal (.object [("ref", .str dotted)])) := by
  have hd : (TextFormat.json.form? text).bind SchemaDocument.ofForm? = some d := by
    unfold TextFormat.readDocument at h
    split at h
    · next hread => exact Except.ok.inj h ▸ hread
    · cases h
  obtain ⟨f, hf, hd⟩ := Option.bind_eq_some_iff.1 hd
  have hreads := SchemaDocument.rereads (Json.ofJson_of_readForm hf) hd
  refine ⟨?_, ?_, ?_⟩
  · unfold TextFormat.readDocument
    rw [show TextFormat.json.form? (Json.compact d.toValue) = some (formOf d.toValue) from
      Json.readForm_compact hn hreads.within, Option.bind_some, hreads.read_eq]
  · rw [SchemaDocument.settled, SchemaDocument.toValue, FieldSpec.toValue_settled]
    rfl
  · simp only [← ArgSpec.settled_eq_iff, ← FieldSpec.settled_eq_iff]
    obtain ⟨unknownKeys, schema⟩ := d
    simp [SchemaDocument.settled]

/-- An object under `ref` that is no reference, and one that is. -/
def references : String :=
  "\x7b\"schema\":\x7b\"default\":\x7b\"ref\":1\x7d,\"steps\":[\x7b\"name\":\"equals\",\"args\":[\x7b\"ref\":\"a\"\x7d]\x7d]\x7d\x7d"

def referencesDocument : SchemaDocument :=
  { schema := .mk "any" false false (some (.literal (.object [("ref", .num (.int 1))]))) none
      [⟨"equals", [.reference "a"], false⟩] none [] none none none }

def referencesValue : Value :=
  .object [("schema", .object [("default", .object [("ref", .num (.int 1))]),
    ("steps", .list [.object [("name", .str "equals"),
      ("args", .list [.object [("ref", .str "a")]])]])])]

theorem compact_references : Json.compact referencesValue = references := by cbv

theorem form_references : TextFormat.json.form? references = some (formOf referencesValue) := by
  have hn : ∀ n ∈ referencesValue.numbers, n.ReadsBack := List.forall_mem_singleton.2 rfl
  rw [← compact_references]
  refine Json.readForm_compact hn (.object (List.forall_mem_singleton.2 (.object ?_)))
  refine List.forall_mem_cons.2 ⟨.object (List.forall_mem_singleton.2 (.single rfl)), ?_⟩
  refine List.forall_mem_singleton.2 (.list (List.forall_mem_singleton.2 (.object ?_)))
  refine List.forall_mem_cons.2 ⟨.single rfl, List.forall_mem_singleton.2 (.list ?_)⟩
  exact List.forall_mem_singleton.2 (.object (List.forall_mem_singleton.2 (.single rfl)))

theorem document_references :
    SchemaDocument.ofForm? (formOf referencesValue) = some referencesDocument := by
  cbv

theorem readDocument_references :
    TextFormat.json.readDocument "references" references = .ok referencesDocument := by
  rw [TextFormat.readDocument, form_references, Option.bind_some, document_references]

theorem reread_document_references :
    TextFormat.json.readDocument "references" references = .ok referencesDocument ∧
      (∀ n ∈ referencesDocument.toValue.numbers, n.ReadsBack) ∧
      TextFormat.json.readDocument "again" (Json.compact referencesDocument.toValue) =
        .ok referencesDocument := by
  have hn : ∀ n ∈ referencesDocument.toValue.numbers, n.ReadsBack :=
    List.forall_mem_singleton.2 rfl
  exact ⟨readDocument_references, hn, (reread_document readDocument_references hn "again").1⟩

/-- A default whose `ref` is given twice. -/
def repeated : String := "\x7b\"schema\":\x7b\"default\":\x7b\"ref\":\"a\",\"ref\":\"b\"\x7d\x7d\x7d"

/-- A document of a value with a default. -/
def defaultDocument (default : ArgSpec) : SchemaDocument :=
  { schema := .mk "any" false false (some default) none [] none [] none none none }

/-- A default whose `ref` is repeated is read as a literal and written as a reference, so the two
documents and their chains differ. -/
theorem repeated_reread :
    TextFormat.json.readDocument "repeated" repeated =
        .ok (defaultDocument (.literal (.object [("ref", .str "b")]))) ∧
      TextFormat.json.readDocument "again"
          (Json.compact (defaultDocument (.literal (.object [("ref", .str "b")]))).toValue) =
        .ok (defaultDocument (.reference "b")) ∧
      defaultDocument (.reference "b") ≠
        defaultDocument (.literal (.object [("ref", .str "b")])) ∧
      ((defaultDocument (.literal (.object [("ref", .str "b")]))).build Registry.standard).map
          (·.props.default?) = .ok (some (.literal (.object [("ref", .str "b")]))) ∧
      ((defaultDocument (.reference "b")).build Registry.standard).map (·.props.default?) =
        .ok (some (.reference ⟨["b"]⟩)) :=
  ⟨by cbv, by cbv, nofun, rfl, rfl⟩

end Intake
