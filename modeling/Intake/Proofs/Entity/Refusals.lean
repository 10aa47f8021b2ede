import Intake.Proofs.Entity.Cycles.Refused
/-!
# What compilation refuses

A chain is refused for what is wrong with one chain of its tree (`Chain.Flaw`): presence rules that
contradict each other, an output format that is no pattern, or members of an object that cannot be
put in an order.  Nothing else fails, and what is accepted has no contradiction at any depth and
an order for the members of every object:

    Ends … c.Refuses (standard.compile c)

Fields have different names, so a name is registered once in a schedule, and paths are linked only
between names that are registered.
-/

namespace Intake

namespace Chain

/-- The fields of an object have different names. -/
def NamesApart (c : Chain) : Prop :=
  ∀ fields, c.kind = .object fields → (Table.names fields).Nodup

/-- Some paths of each field, which are looked up in its tree. -/
def FieldPaths (fields : List (String × Chain)) (members : List (String × List Path)) : Prop :=
  Table.names members = Table.names fields ∧
    ∀ m ∈ members, ∀ path ∈ m.2, ∃ field reader, (m.1, field) ∈ fields ∧ field.Reads reader path

/-- What is wrong with a chain, apart from the chains that it holds.  The fields of an object have
no order if they ask for one another in a circle, or for the object itself. -/
inductive Flaw (c : Chain) : BuildError → Prop
  | required (required : c.props.required = true) (forbidden : c.props.forbidden = true) :
      Flaw c (.conflictingPresence c.displayName "required and forbidden")
  | default (optional : c.props.required = false) (forbidden : c.props.forbidden = true)
      (default : c.props.default?.isSome = true) :
      Flaw c (.conflictingPresence c.displayName "forbidden with a default value")
  | outputFormat {pattern : String} (date : c.kind = .date)
      (format : c.props.outputFormat = some pattern) (bad : Date.isPattern pattern = false) :
      Flaw c (.invalidOption c.displayName "output_format"
        s!"'{pattern}' is not a valid strftime format")
  | cycle {fields : List (String × Chain)} {own : Option String}
      {members : List (String × List Path)} (object : c.kind = .object fields)
      (paths : FieldPaths fields members) (stuck : Schedule.Stuck own members)
      (producer consumer : String) : Flaw c (.schedule (.cycle producer consumer))

/-- Something is wrong with a chain of the tree. -/
def Refuses (c : Chain) (e : BuildError) : Prop :=
  ∃ address inner, c.at? address = some inner ∧ inner.Flaw e

theorem Flaw.refuses {c : Chain} {e : BuildError} (h : c.Flaw e) : c.Refuses e := ⟨[], c, rfl, h⟩

theorem Refuses.of_child {c member : Chain} {s : String} {e : BuildError}
    (hm : c.kind.child? s = some member) (h : member.Refuses e) : c.Refuses e := by
  obtain ⟨address, inner, hinner, hflaw⟩ := h
  refine ⟨s :: address, inner, ?_, hflaw⟩
  rw [at?_cons, hm, Option.bind_some, hinner]

theorem presenceConflict?_eq_none_iff {p : Props} :
    presenceConflict? p = none ↔
      ¬ (p.required = true ∧ p.forbidden = true) ∧
        ¬ (p.forbidden = true ∧ p.default?.isSome = true) := by
  unfold presenceConflict?
  cases p.required <;> cases p.forbidden <;> cases p.default? <;> simp

theorem checkPresence_ends (c : Chain) : Ends (fun _ => True) c.Flaw c.checkPresence := by
  unfold checkPresence presenceConflict?
  cases hr : c.props.required with
  | true =>
    cases hf : c.props.forbidden with
    | true => exact .required hr hf
    | false => trivial
  | false =>
    cases hf : c.props.forbidden with
    | true =>
      cases hd : c.props.default? with
      | none => trivial
      | some operand => exact .default hr hf (by rw [hd]; rfl)
    | false => trivial

theorem checkOutputFormat_ends {c : Chain} (h : c.kind = .date) :
    Ends (fun _ => True) c.Flaw c.checkOutputFormat := by
  unfold checkOutputFormat
  cases hf : c.props.outputFormat with
  | none => trivial
  | some pattern =>
    cases hp : Date.isPattern pattern with
    | true => simp [hp, Ends]
    | false =>
      simp only [hp, if_neg Bool.false_ne_true]
      exact .outputFormat h hf hp

end Chain

namespace Mapper

open Chain Entity

mutual

/-- A chain compiles, and what its entity looks up is looked up in the tree, or something is wrong
with a chain of the tree. -/
theorem compileChain_refuses : ∀ (c : Chain) (own : Option String) (n : Nat),
    c.Throughout NamesApart →
      Ends (fun out => ∀ path ∈ out.1.references, ∃ reader, c.Reads reader path) c.Refuses
        (standard.compileChain c own n)
  | .mk kind props pipeline registry, own, n, h => by
    have hpresence := (checkPresence_ends (.mk kind props pipeline registry)).imp
      (fun _ h => h) fun _ => Flaw.refuses
    have hkind := fun k => compileKind_refuses kind (.mk kind props pipeline registry) own k rfl h
    unfold compileChain
    refine CompileM.ends_bind (CompileM.ends_ofExcept hpresence) fun _ _ _ => ?_
    refine CompileM.ends_bind (P := fun _ => True) trivial fun id _ _ => ?_
    refine CompileM.ends_bind (compileDefault_ends _ _ _) fun resolver k _ => ?_
    refine CompileM.ends_bind (hkind k).and_eq fun body k' ⟨hescaping, hbody⟩ => ?_
    intro path hpath
    have hfits := (compileKind_suits kind _ own k k' body rfl hbody).1
    rcases reads_of_references hfits hpath with hpath | hpath
    · exact ⟨[], _, rfl, hpath⟩
    · exact hescaping path hpath

theorem compileKind_refuses : ∀ (kind : Kind) (source : Chain) (own : Option String) (n : Nat),
    source.kind = kind → source.Throughout NamesApart →
      Ends (fun out => ∀ path ∈ escapingOf out.1, ∃ reader, source.Reads reader path)
        source.Refuses (standard.compileKind kind source own n)
  | .reference _, _, _, _, _, _
  | .custom _, _, _, _, _, _
  | .any, _, _, _, _, _
  | .string, _, _, _, _, _
  | .number, _, _, _, _, _
  | .boolean, _, _, _, _, _
  | .array none, _, _, _, _, _ => fun _ hpath => absurd hpath List.not_mem_nil
  | .date, source, own, n, hk, _ => by
    have hdate : standard.handles .date = true := rfl
    have hformat := (checkOutputFormat_ends hk).imp (fun _ h => h) fun _ => Flaw.refuses
    simp only [compileKind, hdate, if_pos]
    refine CompileM.ends_bind (CompileM.ends_ofExcept hformat) fun _ _ _ => ?_
    exact fun _ hpath => absurd hpath List.not_mem_nil
  | .array (some items), source, own, n, hk, h => by
    have harray : standard.handles .array = true := rfl
    have hitems : ∀ s, source.kind.child? s = some items := by
      intro s
      rw [hk]
      rfl
    have hinner := compileChain_refuses items none n (h.child (hitems ""))
    simp only [compileKind, harray, if_pos]
    refine CompileM.ends_bind (hinner.imp (fun _ h => h) fun _ => Refuses.of_child (hitems ""))
      fun entity k hreads => ?_
    intro path hpath
    obtain ⟨reader, hreader⟩ := hreads path hpath
    exact ⟨"" :: reader, hreader.cons (hitems "")⟩
  | .object fields, source, own, n, hk, h => by
    have hobject : standard.handles .object = true := rfl
    have hnodup := h [] source rfl fields hk
    have hchild : ∀ f ∈ fields, source.kind.child? f.1 = some f.2 := by
      intro f hf
      rw [hk]
      exact Table.get?_of_mem hnodup hf
    have hfields := compileMembers_refuses fields n fun f hf => h.child (hchild f hf)
    simp only [compileKind, hobject, if_pos]
    refine CompileM.ends_bind (hfields.imp (fun _ h => h) ?_) fun members k hpaths => ?_
    · rintro e ⟨f, hf, hrefuses⟩
      exact hrefuses.of_child (hchild f hf)
    -- the names of the members are those of the fields, so they can be registered
    have hnames : (Table.names (members.map fun m => (m.1, m.2.references))).Nodup :=
      hpaths.1 ▸ hnodup
    refine CompileM.ends_bind (ends_lift k (Schedule.ofMembers_ends hnames) fun e he => ?_)
      fun out k' howed => ?_
    · obtain ⟨⟨p, s, rfl⟩, hstuck⟩ := he
      exact (Flaw.cycle hk hpaths hstuck p s).refuses
    · intro path hpath
      obtain ⟨m, hm, hpath, -⟩ := howed.escaping hpath
      obtain ⟨field, reader, hf, hreads⟩ := hpaths.2 m hm path hpath
      exact ⟨m.1 :: reader, hreads.cons (hchild _ hf)⟩

theorem compileMembers_refuses : ∀ (fields : List (String × Chain)) (n : Nat),
    (∀ f ∈ fields, f.2.Throughout NamesApart) →
      Ends (fun out => FieldPaths fields (out.1.map fun m => (m.1, m.2.references)))
        (fun e => ∃ f ∈ fields, f.2.Refuses e) (standard.compileMembers fields n)
  | [], _, _ => ⟨rfl, List.forall_mem_nil _⟩
  | (name, field) :: rest, n, h => by
    obtain ⟨hfield, hrest⟩ := List.forall_mem_cons.1 h
    have hfirst := compileChain_refuses field (some name) n hfield
    have hothers := fun k => compileMembers_refuses rest k hrest
    unfold compileMembers
    refine CompileM.ends_bind (hfirst.imp (fun _ h => h) fun _ hrefuses => ?_)
      fun entity k hreads => ?_
    · exact ⟨(name, field), List.mem_cons_self, hrefuses⟩
    refine CompileM.ends_bind ((hothers k).imp (fun _ h => h) ?_) fun others k' hpaths => ?_
    · rintro _ ⟨f, hf, hrefuses⟩
      exact ⟨f, List.mem_cons_of_mem _ hf, hrefuses⟩
    · refine ⟨congrArg (name :: ·) hpaths.1, List.forall_mem_cons.2 ⟨fun path hpath => ?_, ?_⟩⟩
      · obtain ⟨reader, hreader⟩ := hreads path hpath
        exact ⟨field, reader, List.mem_cons_self, hreader⟩
      · intro m hm path hpath
        obtain ⟨f, reader, hf, hreader⟩ := hpaths.2 m hm path hpath
        exact ⟨f, reader, List.mem_cons_of_mem _ hf, hreader⟩

end

theorem compile_refuses {c : Chain} (h : c.Throughout NamesApart) :
    Ends (fun _ => True) c.Refuses (standard.compile c) := by
  have hends := compileChain_refuses c none 0 h
  unfold compile compileCounting
  change Ends _ _ ((standard.compileChain c none 0).map (·.1))
  cases hrun : standard.compileChain c none 0 with
  | ok out => trivial
  | error e =>
    rw [hrun] at hends
    exact hends

end Mapper

/-! ## The main result -/

/-- The schedule of an object keeps an order in which each of its fields stands once, after those
that it needs. -/
def Entity.Ordered (e : Entity) (fields : List (String × Chain)) : Prop :=
  ∃ schedule keys, e.schedule? = some schedule ∧ schedule.cached = some keys ∧
    Table.names schedule.nodes = Table.names fields ∧ keys.Perm (Table.names fields) ∧
    keys.Nodup ∧ ∀ p s, Schedule.Joins schedule.edges p s → [p, s].Sublist keys

theorem Entity.Arranged.ordered {own : Option String} {e : Entity} {fields : List (String × Chain)}
    (h : Arranged own e) (hfits : e.Fits) (hobject : e.source.kind = .object fields) :
    e.Ordered fields := by
  obtain ⟨members, schedule, escaping, hschedule, -, hnames, ha⟩ := h.of_object hfits hobject
  obtain ⟨keys, hcached⟩ := ha.kept
  have horders := ha.sound.cached keys hcached
  have hnodes : Table.names schedule.nodes = Table.names fields := ha.names_members.trans hnames
  refine ⟨schedule, keys, hschedule, hcached, hnodes, hnodes ▸ horders.perm, ?_, horders.before⟩
  exact horders.perm.nodup_iff.2 ha.sound.nodup

namespace Mapper

open Chain

/-- Whatever the chain, compilation succeeds, and then no chain of the tree is required and
forbidden or forbidden with a default, and the schedule of every object keeps an order of exactly
its fields; or it fails for presence rules that contradict each other, an output format that is no
pattern or a cycle, which is wrong with a chain of the tree.  No name is registered twice or
unknown to a schedule, no schedule is stalled, and steps have been placed before. -/
theorem compile_verdict {c : Chain} (h : c.Throughout NamesApart) :
    (∀ e, standard.compile c = .ok e → ∀ address inner, c.at? address = some inner →
      ¬ (inner.props.required = true ∧ inner.props.forbidden = true) ∧
      ¬ (inner.props.forbidden = true ∧ inner.props.default?.isSome = true) ∧
      ∀ fields, inner.kind = .object fields → ∃ entity, e.at? address = some entity ∧
        entity.source = inner ∧ entity.Ordered fields) ∧
    (∀ error, standard.compile c = .error error →
      ∃ address inner, c.at? address = some inner ∧ inner.Flaw error) ∧
    ∀ error, standard.compile c = .error error → ∀ key reason names,
      error ≠ .schedule (.duplicateNode key) ∧ error ≠ .schedule (.unknownNode key) ∧
      error ≠ .schedule (.stalled names) ∧ error ≠ .unknownProcessor key ∧
      error ≠ .misplacedFormatStep key reason := by
  have hrefuses : ∀ error, standard.compile c = .error error → c.Refuses error := by
    intro error herror
    have hends := compile_refuses h
    rwa [herror] at hends
  refine ⟨fun e he address inner hinner => ?_, hrefuses, fun error herror key reason names => ?_⟩
  · obtain ⟨rfl, hfits⟩ := compile_fits he
    rw [hfits.source_at?_eq, Option.map_eq_some_iff] at hinner
    obtain ⟨entity, hentity, rfl⟩ := hinner
    have hown := hfits address entity hentity
    obtain ⟨hrequired, hdefault⟩ := presenceConflict?_eq_none_iff.1 hown.presence
    refine ⟨hrequired, hdefault, fun fields hobject => ⟨entity, hentity, rfl, ?_⟩⟩
    obtain ⟨own, harranged⟩ := (compile_arranged he).at? hentity
    exact harranged.ordered hown hobject
  · obtain ⟨address, inner, -, hflaw⟩ := hrefuses error herror
    cases hflaw <;> simp

/-- An object whose only field is an object with a field that is forbidden and has a default. -/
def selfContradicting : Chain :=
  let schema : Schema := { registry := Registry.empty }
  schema.object.field "a"
    (schema.object.field "b" (schema.any.forbidden.defaultTo (.literal .null)))

theorem compile_verdict_selfContradicting :
    selfContradicting.Throughout NamesApart ∧
    standard.compile selfContradicting =
      .error (.conflictingPresence "any" "forbidden with a default value") ∧
    ∃ address inner, selfContradicting.at? address = some inner ∧
      inner.Flaw (.conflictingPresence "any" "forbidden with a default value") := by
  have hobject : ∀ {c : Chain} {fields : List (String × Chain)}, c.kind = .object fields →
      (Table.names fields).Nodup → c.NamesApart := by
    intro c fields hk hnodup fields' hk'
    obtain rfl := Kind.object.inj (hk.symm.trans hk')
    exact hnodup
  have hnames : selfContradicting.Throughout NamesApart := by
    refine .object rfl (hobject rfl (by decide)) (List.forall_mem_singleton.2 ?_)
    refine .object rfl (hobject rfl (by decide)) (List.forall_mem_singleton.2 ?_)
    exact .leaf (fun _ => rfl) nofun
  have hfails : standard.compile selfContradicting =
      .error (.conflictingPresence "any" "forbidden with a default value") := rfl
  exact ⟨hnames, hfails, (compile_verdict hnames).2.1 _ hfails⟩

end Mapper

end Intake
