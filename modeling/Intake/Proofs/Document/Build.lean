import Intake.Processor.Standard
import Intake.Proofs.Chain.Placement
import Intake.Proofs.Document.Operands
import Intake.Proofs.Fallible
/-!
# What a document says of its chains

A schema document is read from a form and built into a chain.  At every address of the document
the chain that is built holds the arguments and the default that are written there:

    (f.schema?.bind (·.at? address)) = some g → ∃ inner, c.at? address = some inner ∧ ...

`FieldSpec.Says` relates a form to the field that is read from it, and `FieldSpec.Made` a field to
the chain that is built from it.  The steps of a chain are those of the document as `arranged` puts
them.
-/

namespace Intake

namespace Form

/-! ## The parts of a written field -/

/-- The form of a member of a field. -/
def part? (f : Form) (name : String) : Option Form :=
  (f.members? FieldSpec.memberNames).bind (·.lookup name)

/-- The items of a list that may be missing. -/
def listed (f : Option Form) : List Form := (f.bind items?).getD []

/-- The forms of the steps of a field. -/
def stepForms (f : Form) : List Form := listed (f.part? "steps")

/-- The forms of the arguments of a step. -/
def argForms (f : Form) : List Form :=
  listed ((f.members? ["name", "args", "prioritize"]).bind (·.lookup "args"))

/-- The form of the field that a field holds under a segment: the one written last under this
name, or the one of the items. -/
def within? (f : Form) (segment : String) : Option Form :=
  match ((f.part? "fields").bind entries?).bind fun es => Table.get? (Table.ofList es) segment with
  | some g => some g
  | none => (f.part? "items").filter (·.absent? = some false)

/-- The form of the field at an address. -/
def at? (f : Form) : List String → Option Form
  | [] => some f
  | segment :: rest => (f.within? segment).bind (·.at? rest)

/-- The form of the schema of a document. -/
def schema? (f : Form) : Option Form := (f.members? ["options", "schema"]).bind (·.lookup "schema")

/-! ## Parts of plain forms -/

theorem Plain.items {f : Form} (hf : f.Plain) {fs : List Form} (h : f.items? = some fs) :
    ∀ g ∈ fs, g.Plain := by
  cases hf with
  | @scalar s _ =>
    rw [items?] at h
    split at h
    · exact Option.some.inj h ▸ fun _ hg => absurd hg List.not_mem_nil
    · cases h
  | list hitems => exact Option.some.inj h ▸ hitems
  | table _ => cases h

theorem Plain.members {f : Form} (hf : f.Plain) {names : List String} {ms : List (String × Form)}
    (h : f.members? names = some ms) : ∀ m ∈ ms, m.2.Plain := by
  cases hf with
  | @scalar s _ =>
    rw [members?] at h
    split at h
    · exact Option.some.inj h ▸ fun _ hm => absurd hm List.not_mem_nil
    · cases h
  | @list items isRecord isValue hitems =>
    cases isRecord with
    | false => cases h
    | true =>
      rw [members?] at h
      split at h
      · exact Option.some.inj h ▸ fun m hm => hitems m.2 (List.of_mem_zip hm).2
      · cases h
  | table hentries => exact forall_of_membersOfEntries hentries h

theorem Plain.member {f : Form} (hf : f.Plain) {names : List String} {name : String} {g : Form}
    (h : (f.members? names).bind (·.lookup name) = some g) : g.Plain := by
  obtain ⟨ms, hms, hg⟩ := Option.bind_eq_some_iff.1 h
  exact hf.members hms _ (Table.mem_of_get? hg)

theorem Plain.listed {f : Option Form} (hf : ∀ g, f = some g → g.Plain) :
    ∀ g ∈ Form.listed f, g.Plain := by
  cases f with
  | none => exact fun _ hg => absurd hg List.not_mem_nil
  | some f =>
    cases hfs : f.items? with
    | none => simp [Form.listed, hfs]
    | some fs =>
      have hlisted : Form.listed (some f) = fs := by simp [Form.listed, hfs]
      exact hlisted ▸ (hf f rfl).items hfs

theorem Plain.entries {f : Form} (hf : f.Plain) {es : List (String × Form)}
    (h : f.entries? = some es) : ∀ e ∈ es, e.2.Plain := by
  cases hf with
  | @scalar s _ =>
    rw [entries?] at h
    split at h
    · exact Option.some.inj h ▸ fun _ hm => absurd hm List.not_mem_nil
    · cases h
  | list _ => cases h
  | @table entries choice isValue hentries =>
    induction entries generalizing es with
    | nil => exact Option.some.inj h ▸ fun _ hm => absurd hm List.not_mem_nil
    | cons entry rest ih =>
      obtain ⟨hentry, hrest⟩ := List.forall_mem_cons.1 hentries
      rw [entries?, List.mapM_cons] at h
      obtain ⟨first, hfirst, h⟩ := Option.bind_eq_some_iff.1 h
      obtain ⟨others, hothers, h⟩ := Option.bind_eq_some_iff.1 h
      obtain ⟨name, -, rfl⟩ := Option.map_eq_some_iff.1 hfirst
      exact Option.some.inj h ▸ List.forall_mem_cons.2 ⟨hentry, ih hrest hothers⟩

theorem Plain.within {f : Form} (hf : f.Plain) {segment : String} {g : Form}
    (h : f.within? segment = some g) : g.Plain := by
  unfold within? at h
  split at h
  · next hg =>
    obtain rfl := Option.some.inj h
    obtain ⟨entries, hentries, hget⟩ := Option.bind_eq_some_iff.1 hg
    obtain ⟨fields, hfields, hentries⟩ := Option.bind_eq_some_iff.1 hentries
    rcases Table.mem_extend (Table.mem_of_get? hget) with hmem | hmem
    · cases hmem
    · exact (hf.member hfields).entries hentries _ hmem
  · exact hf.member (Option.filter_eq_some_iff.1 h).1

end Form

/-! ## Reading -/

theorem forall₂_of_mapM {α β : Type} {f : α → Option β} {l : List α} {bs : List β}
    (h : l.mapM f = some bs) : List.Forall₂ (fun a b => f a = some b) l bs := by
  induction l generalizing bs with
  | nil => exact Option.some.inj h ▸ .nil
  | cons a rest ih =>
    rw [List.mapM_cons] at h
    obtain ⟨b, hb, h⟩ := Option.bind_eq_some_iff.1 h
    obtain ⟨others, hothers, h⟩ := Option.bind_eq_some_iff.1 h
    exact Option.some.inj h ▸ .cons hb (ih hothers)

/-- A member that has been read: it is missing, or it has been read from its form. -/
theorem Form.member_cases {α : Type} {ms : List (String × Form)} {name : String}
    {missing : Option α} {read : Form → Option α} {a : α}
    (h : Form.member ms name missing read = some a) :
    (ms.lookup name = none ∧ missing = some a) ∨
      ∃ g, ms.lookup name = some g ∧ read g = some a := by
  unfold Form.member at h
  split at h
  · next hnone => exact .inl ⟨hnone, h⟩
  · next g hg => exact .inr ⟨g, hg, h⟩

/-- The items that have been read of a list that may be missing. -/
theorem Form.forall₂_listed {α : Type} {ms : List (String × Form)} {name : String}
    {read : Form → Option α} {as : List α}
    (h : Form.member ms name (some []) (fun f => f.items? >>= (·.mapM read)) = some as) :
    List.Forall₂ (fun g a => read g = some a) (Form.listed (ms.lookup name)) as := by
  rcases Form.member_cases h with ⟨hnone, has⟩ | ⟨g, hg, has⟩
  · rw [hnone]
    exact Option.some.inj has ▸ .nil
  · obtain ⟨fs, hfs, has⟩ := Option.bind_eq_some_iff.1 has
    have hlisted : Form.listed (some g) = fs := by simp [Form.listed, hfs]
    rw [hg, hlisted]
    exact forall₂_of_mapM has

/-- The arguments of a step are read from their forms. -/
theorem StepSpec.args_of_ofForm? {f : Form} {s : StepSpec} (h : StepSpec.ofForm? f = some s) :
    List.Forall₂ (fun g a => g.argument? = some a) f.argForms s.args := by
  simp only [StepSpec.ofForm?, Option.bind_eq_bind, Option.bind_eq_some_iff] at h
  obtain ⟨ms, hms, name, -, args, hargs, prioritize, -, h⟩ := h
  obtain rfl := Option.some.inj h
  have hlookup : (f.members? ["name", "args", "prioritize"]).bind (·.lookup "args") =
      ms.lookup "args" := by rw [hms, Option.bind_some]
  rw [Form.argForms, hlookup]
  exact Form.forall₂_listed hargs

namespace FieldSpec

/-- What a form says of the field that is read from it. -/
structure Says (f : Form) (depth : Nat) (default? : Option ArgSpec) (steps : List StepSpec)
    (items : Option FieldSpec) (fields : List (String × FieldSpec)) : Prop where
  default_eq : ∀ g, f.part? "default" = some g → Form.optional Form.argument? g = some default?
  steps_read : List.Forall₂ (fun g s => StepSpec.ofForm? g = some s) f.stepForms steps
  items_eq : ∀ g, f.part? "items" = some g → Form.optional (ofForm? depth) g = some items
  nodup : (Table.names fields).Nodup
  fields_read : ∀ entries, (f.part? "fields").bind Form.entries? = some entries → ∀ name g,
    Table.get? (Table.ofList entries) name = some g →
      ∃ s, Table.get? fields name = some s ∧ ofForm? depth g = some s

theorem says_of_ofForm? {depth : Nat} {f : Form} {s : FieldSpec} (h : ofForm? depth f = some s) :
    ∃ inner type required forbidden default? label steps items fields unknownKeys path
      outputFormat, s = mk type required forbidden default? label steps items fields unknownKeys
        path outputFormat ∧ Says f inner default? steps items fields := by
  cases depth with
  | zero => cases h
  | succ depth =>
    obtain ⟨ms, hms, h⟩ := Option.bind_eq_some_iff.1 h
    obtain ⟨type, -, h⟩ := Option.bind_eq_some_iff.1 h
    obtain ⟨required, -, h⟩ := Option.bind_eq_some_iff.1 h
    obtain ⟨forbidden, -, h⟩ := Option.bind_eq_some_iff.1 h
    obtain ⟨default?, hdefault, h⟩ := Option.bind_eq_some_iff.1 h
    obtain ⟨label, -, h⟩ := Option.bind_eq_some_iff.1 h
    obtain ⟨steps, hsteps, h⟩ := Option.bind_eq_some_iff.1 h
    obtain ⟨items, hitems, h⟩ := Option.bind_eq_some_iff.1 h
    obtain ⟨fields, hfields, h⟩ := Option.bind_eq_some_iff.1 h
    obtain ⟨unknownKeys, -, h⟩ := Option.bind_eq_some_iff.1 h
    obtain ⟨path, -, h⟩ := Option.bind_eq_some_iff.1 h
    obtain ⟨outputFormat, -, h⟩ := Option.bind_eq_some_iff.1 h
    obtain rfl := Option.some.inj h
    have hpart : ∀ name, f.part? name = ms.lookup name := by
      intro name
      rw [Form.part?, hms, Option.bind_some]
    have hread : ∀ {α : Type} {name : String} {missing : Option α} {read : Form → Option α} {a : α},
        Form.member ms name missing read = some a →
        ∀ g, f.part? name = some g → read g = some a := by
      intro α name missing read a ha g hg
      rw [hpart] at hg
      rcases Form.member_cases ha with ⟨hnone, -⟩ | ⟨g', hg', ha⟩
      · cases hnone.symm.trans hg
      · exact Option.some.inj (hg'.symm.trans hg) ▸ ha
    refine ⟨depth, _, _, _, _, _, _, _, _, _, _, _, rfl, hread hdefault, ?_, hread hitems, ?_, ?_⟩
    · rw [Form.stepForms, hpart]
      exact Form.forall₂_listed hsteps
    · rcases Form.member_cases hfields with ⟨-, he⟩ | ⟨g, -, he⟩
      · exact Option.some.inj he ▸ List.nodup_nil
      · obtain ⟨entries, -, he⟩ := Option.bind_eq_some_iff.1 he
        obtain ⟨specs, -, he⟩ := Option.bind_eq_some_iff.1 he
        exact Option.some.inj he ▸ Table.nodup_extend List.nodup_nil
    · intro entries hentries
      obtain ⟨g, hg, hentries⟩ := Option.bind_eq_some_iff.1 hentries
      obtain ⟨entries', hentries', he⟩ := Option.bind_eq_some_iff.1 (hread hfields g hg)
      obtain rfl := Option.some.inj (hentries.symm.trans hentries')
      obtain ⟨specs, hspecs, he⟩ := Option.bind_eq_some_iff.1 he
      obtain rfl := Option.some.inj he
      refine Table.exists_get?_extend ((forall₂_of_mapM hspecs).imp fun e s hs => ?_) nofun
      obtain ⟨spec, hspec, rfl⟩ := Option.map_eq_some_iff.1 hs
      exact ⟨rfl, hspec⟩

/-! ## Building -/

variable {schema : Schema} {location : String} {c : Chain}

/-- Steps that are added one after the other are accepted, and leave the kind and the options. -/
theorem assembled_of_addSteps {registry : Registry} {accepted : List Step} {steps : List StepSpec}
    {c' : Chain} (hc : Chain.Assembled registry accepted c) (h : addSteps steps c = .ok c') :
    ∃ added, Chain.Assembled registry (accepted ++ added) c' ∧
      List.Forall₂ (fun s step => step.args = s.args.map (·.operand)) steps added ∧
      c'.kind = c.kind ∧ c'.props = c.props := by
  have hfold : steps.foldlM addSpec c = .ok c' := mapError_eq_ok.1 h
  clear h
  induction steps generalizing accepted c with
  | nil =>
    obtain rfl := Except.ok.inj hfold
    exact ⟨[], (List.append_nil accepted).symm ▸ hc, .nil, rfl, rfl⟩
  | cons s rest ih =>
    rw [List.foldlM_cons, bind_eq_ok] at hfold
    obtain ⟨next, hnext, hrest⟩ := hfold
    obtain ⟨p, hp, -, he⟩ := Chain.addStep_eq_ok hnext
    obtain ⟨added, hadded, hargs, hkind, hprops⟩ := ih (hc.addStep (hc.registry_eq ▸ hp) hnext) hrest
    rw [List.append_assoc] at hadded
    refine ⟨_ :: added, hadded, .cons rfl hargs, ?_, ?_⟩
    · rw [hkind, he]
      rfl
    · rw [hprops, he]
      rfl

theorem assembled_of_buildLeaf {type : String} {path : Option String}
    (h : buildLeaf schema location type path = .ok c) :
    Chain.Assembled schema.registry [] c := by
  unfold buildLeaf at h
  split at h
  · exact Except.ok.inj h ▸ .start _
  · split at h
    · split at h
      · exact Except.ok.inj h ▸ .start _
      · cases h
    · split at h
      · split at h
        · cases h
        · exact Except.ok.inj h ▸ .start _
      · cases h

/-- The members that have been built are those of the fields, after those that were there. -/
theorem get?_of_buildFields {done members : List (String × Chain)}
    {fields : List (String × FieldSpec)} (hnodup : (Table.names fields).Nodup)
    (h : buildFields schema location done fields = .ok members) :
    (∀ name, name ∉ Table.names fields → Table.get? members name = Table.get? done name) ∧
    ∀ name s, Table.get? fields name = some s → ∃ inner member,
      Table.get? members name = some member ∧ build schema inner s = .ok member := by
  induction fields generalizing done with
  | nil =>
    obtain rfl := Except.ok.inj h
    exact ⟨fun _ _ => rfl, nofun⟩
  | cons field rest ih =>
    obtain ⟨k, spec⟩ := field
    obtain ⟨hk, hrest⟩ := List.nodup_cons.1 hnodup
    obtain ⟨member, hmember, h⟩ := bind_eq_ok.1 h
    obtain ⟨hothers, hbuilt⟩ := ih hrest h
    refine ⟨fun name hname => ?_, fun name s hs => ?_⟩
    · obtain ⟨hne, hname⟩ := not_or.1 (mt List.mem_cons.2 hname)
      rw [hothers name hname, Table.get?_put, if_neg hne]
    · rw [Table.get?_cons] at hs
      split at hs
      · next hname =>
        obtain rfl := Option.some.inj hs
        refine ⟨location ++ k, member, ?_, hmember⟩
        rw [hname, hothers k hk, Table.get?_put, if_pos rfl]
      · exact hbuilt name s hs

/-- The chains that a chain holds are built of the fields that a field holds. -/
def Held (schema : Schema) (items : Option FieldSpec) (fields : List (String × FieldSpec))
    (c : Chain) : Prop :=
  ∀ segment s, Table.get? fields segment = some s ∨ items = some s →
    ∃ inner member, c.kind.child? segment = some member ∧ build schema inner s = .ok member

/-- What is built of a field: its steps, its default, and the chains of the fields that it
holds. -/
structure Made (schema : Schema) (default? : Option ArgSpec) (steps : List StepSpec)
    (items : Option FieldSpec) (fields : List (String × FieldSpec)) (c : Chain) : Prop where
  steps : ∃ added, c.pipeline = Chain.arranged added ∧
    List.Forall₂ (fun s step => step.args = s.args.map (·.operand)) steps added
  default_eq : c.props.default? = default?.map (·.operand)
  held : Held schema items fields c

section

variable {type : String} {required forbidden : Bool} {default? : Option ArgSpec}
  {label : Option String} {steps : List StepSpec} {items : Option FieldSpec}
  {fields : List (String × FieldSpec)} {unknownKeys : Option UnknownKeys}
  {path outputFormat : Option String}

theorem made_of_addSteps {base : Chain} (hbase : Chain.Assembled schema.registry [] base)
    (hheld : Held schema items fields base)
    (h : addSteps steps (configure required forbidden default? label unknownKeys outputFormat base) =
      .ok c) : Made schema default? steps items fields c := by
  obtain ⟨added, hadded, hargs, hkind, hprops⟩ := assembled_of_addSteps (hbase.mapProps _) h
  obtain ⟨kind, props, pipeline, registry⟩ := base
  refine ⟨⟨added, hadded.pipeline_eq.1, hargs⟩, by rw [hprops]; rfl, ?_⟩
  rw [Held, hkind]
  exact hheld

/-- An option that is set is used. -/
theorem used_of_unusedOption? (h : (mk type required forbidden default? label steps items fields
      unknownKeys path outputFormat).unusedOption? = none) :
    (items.isSome = true → type = "array") ∧ (fields ≠ [] → type = "object") := by
  have hall := List.find?_eq_none.1 (Option.map_eq_none_iff.1 h)
  have hitems := hall _ List.mem_cons_self
  have hfields := hall _ (List.mem_cons_of_mem _ List.mem_cons_self)
  simp only [Bool.and_eq_true, Bool.not_eq_true', beq_eq_false_iff_ne, List.isEmpty_eq_false_iff,
    not_and, Decidable.not_not] at hitems hfields
  exact ⟨hitems, hfields⟩

theorem made_of_build (hnodup : (Table.names fields).Nodup)
    (h : build schema location (mk type required forbidden default? label steps items fields
      unknownKeys path outputFormat) = .ok c) : Made schema default? steps items fields c := by
  rw [build] at h
  dsimp only at h
  split at h
  · cases h
  · next hused =>
    obtain ⟨hitems, hfields⟩ := used_of_unusedOption? hused
    have hnofields : type ≠ "object" → fields = [] := fun hne =>
      Decidable.not_not.1 (mt hfields hne)
    have hnoitems : type ≠ "array" → items = none := fun hne =>
      Option.not_isSome_iff_eq_none.1 (mt hitems hne)
    split at h
    · next htype =>
      -- a list holds its items under every segment
      obtain ⟨base, hbase, h⟩ := bind_eq_ok.1 h
      obtain rfl := hnofields (htype ▸ by decide)
      cases items with
      | none =>
        obtain rfl := Except.ok.inj hbase
        exact made_of_addSteps (.start _) (fun segment s hs => by rcases hs with hs | hs <;> cases hs) h
      | some item =>
        cases hmember : build schema (location ++ ".items") item with
        | error e =>
          rw [buildItems, hmember] at hbase
          cases hbase
        | ok member =>
          rw [buildItems, hmember] at hbase
          obtain rfl := Except.ok.inj hbase
          refine made_of_addSteps (.mapKind _ (.start _)) (fun segment s hs => ?_) h
          rcases hs with hs | hs
          · cases hs
          · exact ⟨_, member, rfl, Option.some.inj hs ▸ hmember⟩
    · next htype =>
      obtain rfl := hnoitems htype
      split at h
      · obtain ⟨base, hbase, h⟩ := bind_eq_ok.1 h
        cases hmembers : buildFields schema (location ++ ".fields.") [] fields with
        | error e =>
          rw [hmembers] at hbase
          cases hbase
        | ok members =>
          rw [hmembers] at hbase
          obtain rfl := Except.ok.inj hbase
          refine made_of_addSteps (.mapKind _ (.mapProps _ (.start _))) (fun segment s hs => ?_) h
          rcases hs with hs | hs
          · exact (get?_of_buildFields hnodup hmembers).2 segment s hs
          · cases hs
      · next hother =>
        obtain ⟨base, hbase, h⟩ := bind_eq_ok.1 h
        obtain rfl := hnofields hother
        exact made_of_addSteps (assembled_of_buildLeaf hbase)
          (fun segment s hs => by rcases hs with hs | hs <;> cases hs) h

end

/-- One level down: the field under a segment has been read and built into the chain there. -/
theorem exists_within {depth : Nat} {f g : Form} {s : FieldSpec} (hs : ofForm? depth f = some s)
    (hc : build schema location s = .ok c) {segment : String} (hg : f.within? segment = some g) :
    ∃ depth' s' inner member, ofForm? depth' g = some s' ∧
      c.kind.child? segment = some member ∧ build schema inner s' = .ok member := by
  obtain ⟨depth', type, required, forbidden, default?, label, steps, items, fields, unknownKeys,
    path, outputFormat, rfl, hsays⟩ := says_of_ofForm? hs
  have hheld := (made_of_build hsays.nodup hc).held
  unfold Form.within? at hg
  split at hg
  · next hfield =>
    obtain rfl := Option.some.inj hg
    obtain ⟨entries, hentries, hget⟩ := Option.bind_eq_some_iff.1 hfield
    obtain ⟨s', hs', hread⟩ := hsays.fields_read entries hentries segment _ hget
    obtain ⟨inner, member, hmember, hbuilt⟩ := hheld segment s' (.inl hs')
    exact ⟨depth', s', inner, member, hread, hmember, hbuilt⟩
  · obtain ⟨hitems, hpresent⟩ := Option.filter_eq_some_iff.1 hg
    have hpresent : g.absent? = some false := by simpa using hpresent
    have hitem := hsays.items_eq g hitems
    rw [Form.optional, hpresent] at hitem
    obtain ⟨s', hread, rfl⟩ := Option.map_eq_some_iff.1 hitem
    obtain ⟨inner, member, hmember, hbuilt⟩ := hheld segment s' (.inr rfl)
    exact ⟨depth', s', inner, member, hread, hmember, hbuilt⟩

/-- The field at an address has been read and built into the chain there. -/
theorem exists_at {depth : Nat} {f g : Form} {s : FieldSpec} (hs : ofForm? depth f = some s)
    (hc : build schema location s = .ok c) {address : List String} (hg : f.at? address = some g) :
    ∃ depth' s' inner member, ofForm? depth' g = some s' ∧ c.at? address = some member ∧
      build schema inner s' = .ok member := by
  induction address generalizing depth f s location c with
  | nil =>
    obtain rfl := Option.some.inj hg
    exact ⟨depth, s, location, c, hs, rfl, hc⟩
  | cons segment rest ih =>
    obtain ⟨f', hf', hg⟩ := Option.bind_eq_some_iff.1 hg
    obtain ⟨depth', s', inner, member, hs', hmember, hbuilt⟩ := exists_within hs hc hf'
    rw [Chain.at?, hmember, Option.bind_some]
    exact ih hs' hbuilt hg

end FieldSpec

theorem Form.Plain.at? {f g : Form} (hf : f.Plain) {address : List String}
    (hg : f.at? address = some g) : g.Plain := by
  induction address generalizing f with
  | nil => exact Option.some.inj hg ▸ hf
  | cons segment rest ih =>
    obtain ⟨f', hf', hg⟩ := Option.bind_eq_some_iff.1 hg
    exact ih (hf.within hf') hg

/-- What is written of the steps and the default of a field, and what its chain holds of it. -/
structure Form.Describes (f : Form) (c : Chain) : Prop where
  steps : ∃ added, c.pipeline = Chain.arranged added ∧
    List.Forall₂ (fun g step => List.Forall₂ Form.Holds g.argForms step.args) f.stepForms added
  default_holds : ∀ g, f.part? "default" = some g → ∀ v, g.literal? = some v → v ≠ .null →
    ∃ o, c.props.default? = some o ∧ g.Holds o

theorem Form.holds_args {g : Form} (hg : g.Plain) {s : StepSpec} (hs : StepSpec.ofForm? g = some s)
    {step : Step} (hargs : step.args = s.args.map (·.operand)) :
    List.Forall₂ Form.Holds g.argForms step.args := by
  have hplain : ∀ arg ∈ g.argForms, arg.Plain := Form.Plain.listed fun arg harg => hg.member harg
  rw [hargs, List.forall₂_map_right_iff]
  exact ((List.forall₂_and_left _ _).2 ⟨hplain, StepSpec.args_of_ofForm? hs⟩).imp
    fun _ _ h => Form.holds_of_argument? h.1 h.2

theorem Form.holds_steps {gs : List Form} (hgs : ∀ g ∈ gs, g.Plain) {specs : List StepSpec}
    (hread : List.Forall₂ (fun g s => StepSpec.ofForm? g = some s) gs specs) {added : List Step}
    (hadded : List.Forall₂ (fun s step => step.args = s.args.map (·.operand)) specs added) :
    List.Forall₂ (fun g step => List.Forall₂ Form.Holds g.argForms step.args) gs added := by
  induction hread generalizing added with
  | nil =>
    cases hadded
    exact .nil
  | @cons g s gs ss hs _ ih =>
    obtain ⟨hg, hgs⟩ := List.forall_mem_cons.1 hgs
    cases hadded with
    | cons hargs hadded => exact .cons (Form.holds_args hg hs hargs) (ih hgs hadded)

theorem Form.describes_of_build {schema : Schema} {location : String} {depth : Nat} {f : Form}
    {s : FieldSpec} {c : Chain} (hf : f.Plain) (hs : FieldSpec.ofForm? depth f = some s)
    (hc : s.build schema location = .ok c) : f.Describes c := by
  obtain ⟨depth', type, required, forbidden, default?, label, steps, items, fields, unknownKeys,
    path, outputFormat, rfl, hsays⟩ := FieldSpec.says_of_ofForm? hs
  obtain ⟨⟨added, hpipeline, hadded⟩, hdefault, -⟩ := FieldSpec.made_of_build hsays.nodup hc
  refine ⟨⟨added, hpipeline, ?_⟩, fun g hg v hv hnull => ?_⟩
  · have hplain : ∀ g ∈ f.stepForms, g.Plain :=
      Form.Plain.listed fun g hg => hf.member hg
    exact Form.holds_steps hplain hsays.steps_read hadded
  · have hread := hsays.default_eq g hg
    obtain ⟨left, hleft, hread⟩ := Option.bind_eq_some_iff.1 hread
    obtain rfl := Form.absent?_eq_some (hf.member hg) hv hnull hleft
    obtain ⟨a, ha, rfl⟩ := Option.map_eq_some_iff.1 hread
    exact ⟨a.operand, hdefault, Form.holds_of_argument? (hf.member hg) ha⟩

/-! ## The main result -/

/-- A document in either notation that is read and built.  At every address of the document the
chain has a chain, and there: the steps are those that are written, as placing arranges them, each
argument that is a value is held as written, and so is a default that is a value other than null.
As written (`Form.Holds`) means: a reference if the value is a list of one text, or an object of
one text written as a single entry `ref`; otherwise the value itself. -/
theorem operands_of_document {format : TextFormat} {text : String} {f : Form} {d : SchemaDocument}
    {registry : Registry} {c : Chain} (hf : format.form? text = some f)
    (hd : SchemaDocument.ofForm? f = some d) (hc : d.build registry = .ok c)
    {address : List String} {g : Form} (hg : f.schema?.bind (·.at? address) = some g) :
    ∃ inner, c.at? address = some inner ∧
      (∃ added, inner.pipeline =
          (added.filter (·.prioritize)).reverse ++ added.filter (!·.prioritize) ∧
        List.Forall₂ (fun step s => List.Forall₂ Form.Holds step.argForms s.args) g.stepForms
          added) ∧
      ∀ default, g.part? "default" = some default → ∀ v, default.literal? = some v → v ≠ .null →
        ∃ o, inner.props.default? = some o ∧ default.Holds o := by
  have hplain := TextFormat.plain_of_form? hf
  simp only [SchemaDocument.ofForm?, Option.bind_eq_bind, Option.bind_eq_some_iff] at hd
  obtain ⟨ms, hms, unknownKeys, -, schema, hschema, hd⟩ := hd
  obtain rfl := Option.some.inj hd
  obtain ⟨root, hroot, hg⟩ := Option.bind_eq_some_iff.1 hg
  have hlookup : ms.lookup "schema" = some root := by
    rw [Form.schema?, hms, Option.bind_some] at hroot
    exact hroot
  rcases Form.member_cases hschema with ⟨hnone, -⟩ | ⟨root', hroot', hread⟩
  · cases hlookup.symm.trans hnone
  · obtain rfl := Option.some.inj (hlookup.symm.trans hroot')
    obtain ⟨depth, s, inner, member, hs, hmember, hbuilt⟩ := FieldSpec.exists_at hread hc hg
    have hplain : g.Plain := (hplain.member hroot).at? hg
    obtain ⟨hsteps, hdefault⟩ := Form.describes_of_build hplain hs hbuilt
    exact ⟨member, hmember, hsteps, hdefault⟩

/-- A default of two texts, and a step whose only argument is a list of one. -/
def listing : String :=
  "\x7b\"schema\":\x7b\"default\":[\"a\",\"b\"],\"steps\":[\x7b\"name\":\"equals\",\"args\":[[\"a\"]]\x7d]\x7d\x7d"

def textForm (s : String) : Form := Json.scalarForm (.str s)

def entryForm (name : String) (f : Form) : FormKey × Form := (⟨some name, some (.str name)⟩, f)

/-- The form of a list of texts. -/
def textsForm (texts : List String) : Form := .list (texts.map textForm) true true

def listedStep : Form :=
  .table [entryForm "name" (textForm "equals"), entryForm "args" (.list [textsForm ["a"]] true true)]
    none true

def listedField : Form :=
  .table [entryForm "default" (textsForm ["a", "b"]),
    entryForm "steps" (.list [listedStep] true true)] none true

def listedForm : Form := .table [entryForm "schema" listedField] none true

def listedDocument : SchemaDocument :=
  { schema := .mk "any" false false (some (.literal (.list [.str "a", .str "b"]))) none
      [⟨"equals", [.reference "a"], false⟩] none [] none none none }

def listedChain : Chain :=
  .mk .any { default? := some (.literal (.list [.str "a", .str "b"])) }
    [⟨.step "equals" Processor.equals, [.reference ⟨["a"]⟩], false⟩] Registry.standard

theorem form_listing : TextFormat.json.form? listing = some listedForm := by cbv

theorem document_listing : SchemaDocument.ofForm? listedForm = some listedDocument := by cbv

theorem build_listing : listedDocument.build Registry.standard = .ok listedChain := rfl

theorem operands_of_document_listing :
    TextFormat.json.form? listing = some listedForm ∧
    SchemaDocument.ofForm? listedForm = some listedDocument ∧
    listedDocument.build Registry.standard = .ok listedChain ∧
    (listedForm.schema?.bind (·.at? [])) = some listedField ∧
    (textsForm ["a"]).Holds (.reference ⟨["a"]⟩) ∧
    (textsForm ["a", "b"]).Holds (.literal (.list [.str "a", .str "b"])) := by
  obtain ⟨inner, hinner, ⟨added, hpipeline, hadded⟩, hdefault⟩ :=
    operands_of_document form_listing document_listing build_listing
      (show listedForm.schema?.bind (·.at? []) = some listedField from rfl)
  obtain rfl : listedChain = inner := Option.some.inj hinner
  refine ⟨form_listing, document_listing, build_listing, rfl, ?_, ?_⟩
  · -- the only step that has been added is the only one of the pipeline
    have hadded : List.Forall₂ _ [listedStep] added := hadded
    cases hadded with
    | @cons _ s _ rest hargs hrest =>
      cases hrest
      have hpipeline : listedChain.pipeline = [s] := by
        rw [hpipeline]
        cases hs : s.prioritize <;> simp [hs]
      obtain rfl := List.head_eq_of_cons_eq hpipeline
      exact (List.forall₂_cons.1 hargs).1
  · obtain ⟨o, ho, hholds⟩ := hdefault (textsForm ["a", "b"]) rfl _ rfl nofun
    obtain rfl := Option.some.inj ho
    exact hholds

/-- A list of one text is no object, and still its chain holds a reference. -/
theorem listing_misread :
    TextFormat.json.form? listing = some listedForm ∧
    SchemaDocument.ofForm? listedForm = some listedDocument ∧
    listedDocument.build Registry.standard = .ok listedChain ∧
    listedField.stepForms = [listedStep] ∧ listedStep.argForms = [textsForm ["a"]] ∧
    (textsForm ["a"]).literal? = some (.list [.str "a"]) ∧
    (∀ dotted, Value.list [.str "a"] ≠ .object [("ref", .str dotted)]) ∧
    listedChain.pipeline.map (·.args) = [[.reference ⟨["a"]⟩]] :=
  ⟨form_listing, document_listing, build_listing, rfl, rfl, rfl, nofun, rfl⟩

end Intake
