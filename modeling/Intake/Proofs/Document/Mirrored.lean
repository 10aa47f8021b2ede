import Intake.Processor.Standard
import Intake.Proofs.Document.Wellformed
import Intake.Proofs.Table
/-!
# What a document builds

Building a document goes through its fields and reports the first fault that it comes upon.  Where
there is none, the chain that is built mirrors the document: every field has become a chain of its
kind, with its options, its steps and the chains of the fields that it holds (`build_wellformed`):

    d.build registry = .error e ↔ (d.schema.faults registry "schema").head? = some e

The faults are listed in the order in which building looks for them, so that what is bound one
after the other `Reports` what is listed one after the other.
-/

namespace Intake

/-! ## Reports -/

/-- A computation reports the first of some faults, and without faults it gives what is asked
for. -/
def Reports {ε α : Type} (faults : List ε) (good : α → Prop) : Except ε α → Prop :=
  Ends (fun a => faults = [] ∧ good a) fun e => faults.head? = some e

namespace Reports

variable {ε α β : Type} {fs gs : List ε} {P : α → Prop} {Q : β → Prop} {x : Except ε α}

theorem bind {f : α → Except ε β} (h : Reports fs P x) (hf : ∀ a, P a → Reports gs Q (f a)) :
    Reports (fs ++ gs) Q (x >>= f) := by
  cases x with
  | error e =>
    have hfirst : fs.head? = some e := h
    show (fs ++ gs).head? = some e
    rw [List.head?_append, hfirst]
    rfl
  | ok a =>
    obtain ⟨rfl, ha⟩ := h
    exact hf a ha

theorem imp_good {P' : α → Prop} (h : Reports fs P x) (hP : ∀ a, P a → P' a) : Reports fs P' x :=
  Ends.imp h (fun a ha => ⟨ha.1, hP a ha.2⟩) fun _ he => he

theorem map {f : α → β} (h : Reports fs P x) (hf : ∀ a, P a → Q (f a)) :
    Reports fs Q (x.map f) := by
  cases x with
  | error e => exact h
  | ok a => exact ⟨h.1, hf a h.2⟩

theorem ok_iff (h : Reports fs P x) : (∃ a, x = .ok a) ↔ fs = [] := by
  cases x with
  | error e =>
    have hfirst : fs.head? = some e := h
    refine ⟨nofun, ?_⟩
    rintro rfl
    cases hfirst
  | ok a => exact ⟨fun _ => h.1, fun _ => ⟨a, rfl⟩⟩

theorem error_iff (h : Reports fs P x) {e : ε} : x = .error e ↔ fs.head? = some e := by
  cases x with
  | error e' =>
    have hfirst : fs.head? = some e' := h
    rw [hfirst, Except.error.injEq, Option.some.injEq]
  | ok a =>
    obtain ⟨rfl, -⟩ := h
    exact ⟨nofun, nofun⟩

theorem good (h : Reports fs P x) {a : α} (ha : x = .ok a) : P a := by
  subst ha
  exact h.2

end Reports

namespace FieldSpec

/-! ## Mirrors -/

/-- The presence rules and options of a field over a schema: an object takes the policy of the
schema for unknown keys unless it has its own. -/
def props (s : FieldSpec) (schema : Schema) : Props where
  required := s.required
  forbidden := s.forbidden
  default? := s.default?.map (·.operand)
  label := s.label
  unknownKeys := s.unknownKeys.getD (if s.type = "object" then schema.unknownKeys else .strip)
  outputFormat := s.outputFormat

mutual

/-- A chain is what a field describes: it has the kind and the options of the field, it looks up
steps in the registry of the schema, and its pipeline is what its steps have made of an empty
one. -/
inductive Mirrors (schema : Schema) : FieldSpec → Chain → Prop
  | mk {s : FieldSpec} {c : Chain} (kind : MirrorsKind schema s c.kind)
      (props : c.props = s.props schema) (registry : c.registry = schema.registry)
      (steps : Accepts (.mk c.kind c.props [] c.registry) s.steps c) : Mirrors schema s c

/-- A kind is that of the type of a field, with the chains of the fields that it holds. -/
inductive MirrorsKind (schema : Schema) : FieldSpec → Kind → Prop
  | any {s : FieldSpec} (type : s.type = "any") : MirrorsKind schema s .any
  | string {s : FieldSpec} (type : s.type = "string") : MirrorsKind schema s .string
  | number {s : FieldSpec} (type : s.type = "number") : MirrorsKind schema s .number
  | boolean {s : FieldSpec} (type : s.type = "boolean") : MirrorsKind schema s .boolean
  | date {s : FieldSpec} (type : s.type = "date") : MirrorsKind schema s .date
  | array {s : FieldSpec} (type : s.type = "array") (items : s.items = none) :
      MirrorsKind schema s (.array none)
  | arrayOf {s item : FieldSpec} {c : Chain} (type : s.type = "array")
      (items : s.items = some item) (mirrors : Mirrors schema item c) :
      MirrorsKind schema s (.array (some c))
  | object {s : FieldSpec} {members : List (String × Chain)} (type : s.type = "object")
      (mirrors : MirrorsMembers schema s.fields members) : MirrorsKind schema s (.object members)
  | reference {s : FieldSpec} {dotted : String} (type : s.type = "ref")
      (path : s.path = some dotted) : MirrorsKind schema s (.reference (.ofDotted dotted))
  | custom {s : FieldSpec} {name : String} (type : s.type = "custom:" ++ name)
      (named : name ≠ "") : MirrorsKind schema s (.custom name)

/-- Members are those of some fields, in the same order. -/
inductive MirrorsMembers (schema : Schema) :
    List (String × FieldSpec) → List (String × Chain) → Prop
  | nil : MirrorsMembers schema [] []
  | cons {name : String} {field : FieldSpec} {c : Chain} {fields : List (String × FieldSpec)}
      {members : List (String × Chain)} (first : Mirrors schema field c)
      (others : MirrorsMembers schema fields members) :
      MirrorsMembers schema ((name, field) :: fields) ((name, c) :: members)

end

/-- No two members of a field have the same name. -/
def NamesApart (s : FieldSpec) : Prop := (Table.names s.fields).Nodup

instance (s : FieldSpec) : Decidable s.NamesApart :=
  inferInstanceAs (Decidable (Table.names s.fields).Nodup)

variable {schema : Schema} {location : String}

/-! ## Steps -/

/-- What accepts steps keeps its kind and its options. -/
theorem Accepts.eq_mk {kind : Kind} {props : Props} {pipeline : List Step} {registry : Registry}
    {steps : List StepSpec} {c : Chain} (h : Accepts (.mk kind props pipeline registry) steps c) :
    c = .mk kind props c.pipeline registry := by
  generalize hstart : Chain.mk kind props pipeline registry = start at h
  induction h generalizing pipeline with
  | nil c => exact hstart ▸ rfl
  | @cons start next c s rest added others ih =>
    subst hstart
    obtain ⟨x, hx⟩ := exists_addSpec pipeline registry s
    have hnext : addSpec (.mk kind props pipeline registry) s = .ok next := added
    rw [hx, map_eq_ok] at hnext
    obtain ⟨made, -, hmade⟩ := hnext
    exact ih hmade

theorem addSteps_reports (steps : List StepSpec) (c : Chain) :
    Reports ((refusal? c steps).map DocumentError.build).toList (Accepts c steps)
      (addSteps steps c) := by
  induction steps generalizing c with
  | nil => exact ⟨rfl, .nil c⟩
  | cons s rest ih =>
    rw [addSteps, refusal?, List.foldlM_cons]
    cases hs : addSpec c s with
    | error e => exact rfl
    | ok next =>
      exact Reports.imp_good (ih next) fun c' hothers => .cons hs hothers

/-! ## Kinds -/

theorem holds_of_plainKind? : ∀ type ∈ builtinTypes, (plainKind? type).isNone = true →
    type ∈ ["array", "object", "ref"] := by decide

/-- The kinds that hold no other fields. -/
theorem buildLeaf_reports {s : FieldSpec} (harray : s.type ≠ "array")
    (hobject : s.type ≠ "object") :
    Reports (typeFault? location s.type s.path).toList
      (fun c => ∃ kind, c = .mk kind {} [] schema.registry ∧ MirrorsKind schema s kind)
      (buildLeaf schema location s.type s.path) := by
  generalize htype : s.type = type at harray hobject ⊢
  unfold buildLeaf
  split
  · next kind hkind =>
    have hmirrors : IsType type ∧ type ≠ "ref" ∧ MirrorsKind schema s kind := by
      unfold plainKind? at hkind
      split at hkind
      · exact Option.some.inj hkind ▸ ⟨.inl (by decide), by decide, .any htype⟩
      · exact Option.some.inj hkind ▸ ⟨.inl (by decide), by decide, .string htype⟩
      · exact Option.some.inj hkind ▸ ⟨.inl (by decide), by decide, .number htype⟩
      · exact Option.some.inj hkind ▸ ⟨.inl (by decide), by decide, .boolean htype⟩
      · exact Option.some.inj hkind ▸ ⟨.inl (by decide), by decide, .date htype⟩
      · cases hkind
    obtain ⟨hknown, hne, hkind⟩ := hmirrors
    rw [typeFault?_of_isType hknown hne]
    exact ⟨rfl, kind, rfl, hkind⟩
  · next hplain =>
    have hbuiltin : type ∈ builtinTypes → type = "ref" := by
      intro hmem
      have hholds := holds_of_plainKind? type hmem (Option.isNone_iff_eq_none.2 hplain)
      simpa [harray, hobject] using hholds
    by_cases href : type = "ref"
    · rw [if_pos href, typeFault?, if_pos href]
      cases hpath : s.path with
      | none => exact rfl
      | some dotted => exact ⟨rfl, _, rfl, .reference (htype.trans href) hpath⟩
    · have hknown : IsType type ↔ ∃ name, name ≠ "" ∧ customName? type = some name := by
        simp only [customName?_eq_some_iff]
        exact or_iff_right fun hmem => href (hbuiltin hmem)
      rw [if_neg href, typeFault?, if_neg href]
      cases hcustom : customName? type with
      | none =>
        rw [if_neg (by simp [hknown, hcustom])]
        exact rfl
      | some name =>
        by_cases hempty : name = ""
        · rw [if_neg (by simp [hknown, hcustom, hempty]), hempty]
          exact rfl
        · have hnonempty : name.isEmpty = false := by
            rw [← Bool.not_eq_true, String.isEmpty_iff]
            exact hempty
          dsimp only
          rw [if_pos (hknown.2 ⟨name, hempty, hcustom⟩), hnonempty, if_neg Bool.false_ne_true]
          have hname := customName?_eq_some_iff.1 hcustom
          exact ⟨rfl, _, rfl, .custom (htype.trans hname) hempty⟩

/-! ## Fields -/

/-- A chain over a schema that has a kind, but not yet the options and the steps of a field. -/
def started (s : FieldSpec) (schema : Schema) (kind : Kind) : Chain :=
  .mk kind { unknownKeys := if s.type = "object" then schema.unknownKeys else .strip } []
    schema.registry

/-- What a field begins with: what it holds, or its type. -/
def buildKind (schema : Schema) (location : String) (s : FieldSpec) :
    Except DocumentError Chain :=
  if s.type = "array" then buildItems schema (location ++ ".items") s.items
  else if s.type = "object" then
    (buildFields schema (location ++ ".fields.") [] s.fields).map fun members =>
      schema.object.mapKind fun _ => .object members
  else buildLeaf schema location s.type s.path

/-- Building a field: its options, then what it begins with, and then its steps. -/
theorem build_eq (schema : Schema) (location : String) (s : FieldSpec) :
    build schema location s = match s.unusedOption? with
      | some option => .error (.unusedOption location option s.type)
      | none => buildKind schema location s >>= fun c =>
        addSteps s.steps (configure s.required s.forbidden s.default? s.label s.unknownKeys
          s.outputFormat c) := by
  obtain ⟨type, required, forbidden, default?, label, steps, items, fields, unknownKeys, path,
    outputFormat⟩ := s
  rw [build, buildKind]
  dsimp only
  cases unusedOption? (mk type required forbidden default? label steps items fields unknownKeys path
    outputFormat) with
  | some option => rfl
  | none =>
    -- the steps are bound in each branch
    by_cases harray : type = "array"
    · subst harray
      rfl
    · by_cases hobject : type = "object"
      · subst hobject
        rfl
      · simp only [FieldSpec.type, harray, hobject, if_false]
        rfl

theorem configure_started (s : FieldSpec) (schema : Schema) (kind : Kind) :
    configure s.required s.forbidden s.default? s.label s.unknownKeys s.outputFormat
      (s.started schema kind) = .mk kind (s.props schema) [] schema.registry := by
  obtain ⟨type, required, forbidden, default?, label, steps, items, fields, unknownKeys, path,
    outputFormat⟩ := s
  cases label <;> cases outputFormat <;> rfl

/-- What the steps of a field make of a chain of its kind mirrors it. -/
theorem configured_reports {s : FieldSpec} {kind : Kind} {Apart : Prop}
    (hkind : Apart → MirrorsKind schema s kind) :
    Reports ((refusal? (.ofKind .any schema.registry) s.steps).map DocumentError.build).toList
      (fun c => Apart → s.Mirrors schema c)
      (addSteps s.steps (configure s.required s.forbidden s.default? s.label s.unknownKeys
        s.outputFormat (s.started schema kind))) := by
  rw [configure_started, Chain.ofKind, refusal?_eq .any kind {} (s.props schema)]
  refine (addSteps_reports s.steps _).imp_good fun c haccepts hapart => ?_
  obtain ⟨kind', props', pipeline, registry'⟩ := c
  obtain ⟨rfl, rfl, -, rfl⟩ := Chain.mk.inj haccepts.eq_mk
  exact .mk (hkind hapart) rfl rfl haccepts

section

variable {s : FieldSpec}
  (hitems : Reports (itemFaults schema.registry (location ++ ".items") s.items)
    (fun c => ∃ kind, c = .mk kind {} [] schema.registry ∧
      ((∀ t ∈ itemNodes s.items, t.NamesApart) → s.type = "array" → MirrorsKind schema s kind))
    (buildItems schema (location ++ ".items") s.items))
  (hmembers : Reports (memberFaults schema.registry (location ++ ".fields.") s.fields)
    (fun members => (∀ t ∈ memberNodes s.fields, t.NamesApart) → s.NamesApart →
      MirrorsMembers schema s.fields members)
    (buildFields schema (location ++ ".fields.") [] s.fields))

include hitems hmembers

/-- Without ignored options, a field begins with its items, its members, or its type, and the
others are not at fault. -/
theorem buildKind_reports (hignored : s.ignored = []) :
    Reports (itemFaults schema.registry (location ++ ".items") s.items ++
        memberFaults schema.registry (location ++ ".fields.") s.fields ++
          (typeFault? location s.type s.path).toList)
      (fun c => ∃ kind, c = s.started schema kind ∧
        ((∀ t ∈ s.nodes, t.NamesApart) → MirrorsKind schema s kind))
      (buildKind schema location s) := by
  rw [buildKind, nodes_eq]
  by_cases harray : s.type = "array"
  · have hplain : s.type ≠ "object" := harray ▸ by decide
    have htype : typeFault? location s.type s.path = none :=
      typeFault?_of_isType (harray ▸ .inl (by decide)) (harray ▸ by decide)
    rw [if_pos harray, fields_eq_nil hignored hplain, htype, memberFaults, Option.toList_none,
      List.append_nil, List.append_nil]
    refine hitems.imp_good ?_
    rintro c ⟨kind, rfl, hmirrors⟩
    refine ⟨kind, ?_, fun hapart => hmirrors (fun t ht => hapart t ?_) harray⟩
    · rw [started, if_neg hplain]
    · exact List.mem_cons_of_mem _ (List.mem_append_left _ ht)
  · rw [if_neg harray, items_eq_none hignored harray, itemFaults, List.nil_append]
    by_cases hobject : s.type = "object"
    · have htype : typeFault? location s.type s.path = none :=
        typeFault?_of_isType (hobject ▸ .inl (by decide)) (hobject ▸ by decide)
      rw [if_pos hobject, htype, Option.toList_none, List.append_nil]
      refine hmembers.map fun members hmirrors => ⟨.object members, ?_, fun hapart => ?_⟩
      · rw [started, if_pos hobject]
        rfl
      · obtain ⟨hself, hbelow⟩ := List.forall_mem_cons.1 hapart
        exact .object hobject (hmirrors hbelow hself)
    · rw [if_neg hobject, fields_eq_nil hignored hobject, memberFaults, List.nil_append]
      refine (buildLeaf_reports harray hobject).imp_good ?_
      rintro c ⟨kind, rfl, hmirrors⟩
      exact ⟨kind, by rw [started, if_neg hobject], fun _ => hmirrors⟩

/-- A field reports what is wrong with its options, with what it begins with, and with its
steps. -/
theorem reports_of_parts : Reports (s.faults schema.registry location)
    (fun c => (∀ t ∈ s.nodes, t.NamesApart) → s.Mirrors schema c) (build schema location s) := by
  rw [build_eq, faults_eq, unusedOption?_eq]
  cases hignored : s.ignored with
  | cons o rest => exact rfl
  | nil =>
    refine (buildKind_reports hitems hmembers hignored).bind ?_
    rintro base ⟨kind, rfl, hmirrors⟩
    exact configured_reports hmirrors

end

mutual

/-- Building a field reports the first fault of it and of all below it. -/
theorem build_reports (schema : Schema) (s : FieldSpec) (location : String) :
    Reports (s.faults schema.registry location)
      (fun c => (∀ t ∈ s.nodes, t.NamesApart) → s.Mirrors schema c)
      (build schema location s) := by
  obtain ⟨type, required, forbidden, default?, label, steps, items, fields, unknownKeys, path,
    outputFormat⟩ := s
  have hitems := buildItems_reports schema items (location ++ ".items")
  have hmembers := buildFields_reports schema fields (location ++ ".fields.") []
  refine reports_of_parts (hitems.imp_good ?_) (hmembers.imp_good ?_)
  · rintro c ⟨kind, rfl, hmirrors⟩
    exact ⟨kind, rfl, fun hapart htype => hmirrors hapart _ htype rfl⟩
  · intro members hmirrors hapart hself
    obtain ⟨new, rfl, hnew⟩ := hmirrors hapart hself
    exact hnew

theorem buildItems_reports (schema : Schema) (items : Option FieldSpec) (location : String) :
    Reports (itemFaults schema.registry location items)
      (fun c => ∃ kind, c = .mk kind {} [] schema.registry ∧
        ((∀ t ∈ itemNodes items, t.NamesApart) → ∀ s : FieldSpec, s.type = "array" →
          s.items = items → MirrorsKind schema s kind))
      (buildItems schema location items) := by
  cases items with
  | none => exact ⟨rfl, _, rfl, fun _ s htype hitems => .array htype hitems⟩
  | some item =>
    refine (build_reports schema item location).map fun c hc =>
      ⟨_, rfl, fun hapart s htype hitems => ?_⟩
    exact .arrayOf htype hitems (hc hapart)

/-- The members are built one after the other, behind those that are there. -/
theorem buildFields_reports (schema : Schema) (fields : List (String × FieldSpec))
    (location : String) (done : List (String × Chain)) :
    Reports (memberFaults schema.registry location fields)
      (fun members => (∀ t ∈ memberNodes fields, t.NamesApart) →
        (Table.names done ++ Table.names fields).Nodup →
          ∃ new, members = done ++ new ∧ MirrorsMembers schema fields new)
      (buildFields schema location done fields) := by
  cases fields with
  | nil => exact ⟨rfl, fun _ _ => ⟨[], (List.append_nil done).symm, .nil⟩⟩
  | cons field rest =>
    obtain ⟨name, field⟩ := field
    rw [buildFields, memberFaults]
    refine (build_reports schema field (location ++ name)).bind fun c hc => ?_
    refine (buildFields_reports schema rest location (Table.put name c done)).imp_good
      fun members hmembers hapart hnodup => ?_
    obtain ⟨hfirst, hrest⟩ := List.forall_mem_append.1 hapart
    have hnew : name ∉ Table.names done := fun hmem =>
      (List.nodup_append.1 hnodup).2.2 name hmem name List.mem_cons_self rfl
    have hput : Table.put name c done = done ++ [(name, c)] := Table.put_of_not_mem hnew c
    have hnames : (Table.names (Table.put name c done) ++ Table.names rest).Nodup := by
      rw [hput, Table.names, List.map_append, List.append_assoc]
      exact hnodup
    obtain ⟨new, rfl, hmirrors⟩ := hmembers hrest hnames
    refine ⟨(name, c) :: new, ?_, .cons (hc hfirst) hmirrors⟩
    rw [hput, List.append_assoc]
    rfl

end

end FieldSpec

/-! ## The main result -/

/-- Whatever the registry: a document is built exactly if all its fields are sound by themselves.
The chain then mirrors the document, at any depth, where the names of members differ as those of a
document that is read do; an object without a policy of its own has that of the document.
Otherwise the error is the first fault, with the location of its field. -/
theorem build_wellformed (d : SchemaDocument) (registry : Registry) :
    ((∃ c, d.build registry = .ok c) ↔ ∀ s ∈ d.schema.nodes, s.Sound registry) ∧
    (∀ c, d.build registry = .ok c → (∀ s ∈ d.schema.nodes, s.NamesApart) →
      d.schema.Mirrors { registry, unknownKeys := d.unknownKeys } c) ∧
    ∀ e, d.build registry = .error e ↔
      (d.schema.faults registry "schema").head? = some e := by
  have hreports := FieldSpec.build_reports { registry, unknownKeys := d.unknownKeys } d.schema
    "schema"
  refine ⟨?_, fun c hc => hreports.good hc, fun e => hreports.error_iff⟩
  exact hreports.ok_iff.trans (FieldSpec.faults_eq_nil_iff d.schema "schema")

/-- A field with some parts and nothing else. -/
def FieldSpec.bare (type : String) (steps : List StepSpec := [])
    (items : Option FieldSpec := none) (fields : List (String × FieldSpec) := [])
    (path : Option String := none) : FieldSpec :=
  .mk type false false none none steps items fields none path none

/-- Orders have lines, and the first of them is told again.  A line has a number, which is read
from text. -/
def orders : SchemaDocument where
  unknownKeys := .forbid
  schema := .bare "object" [] none
    [ ("lines", .bare "array" [] (some (.bare "object" [] none
        [("amount", .bare "number" [{ name := "number/integer" }, { name := "number/parse" }])])))
    , ("first", .bare "ref" [] none [] (some "lines.0")) ]

/-- The number of a line is to be found elsewhere, and what it is read with does not exist. -/
def misread : SchemaDocument where
  schema := .bare "array" [] (some (.bare "number" [{ name := "number/guess" }] none [] (some "n")))

theorem build_wellformed_orders :
    (∃ c, orders.build Registry.standard = .ok c ∧
      orders.schema.Mirrors { registry := Registry.standard, unknownKeys := .forbid } c) ∧
    misread.build Registry.standard =
      .error (.unusedOption "schema.items" "path" "number") := by
  have hbuilt : ∃ c, orders.build Registry.standard = .ok c := ⟨_, rfl⟩
  have hapart : ∀ s ∈ orders.schema.nodes, s.NamesApart := by
    simp only [orders, FieldSpec.bare, FieldSpec.nodes, FieldSpec.itemNodes, FieldSpec.memberNodes]
    decide
  obtain ⟨c, hc⟩ := hbuilt
  refine ⟨⟨c, hc, (build_wellformed orders Registry.standard).2.1 c hc hapart⟩, ?_⟩
  exact ((build_wellformed misread Registry.standard).2.2 _).2 rfl

end Intake
