import Intake.Proofs.Chain.Rearranged
import Intake.Proofs.Entity.Cycles.Compiled
import Intake.Proofs.Schedule.Rearranged
import Intake.Proofs.Tracker.Resemblance
/-!
# Entities that are alike

Two entities are `Alike` if they do the same but for their numbers, and for the order in which the
objects inside of them declare their members.  They look up the same paths.  Chains that differ in
the order of fields compile to such entities, and one compiles exactly if the other does:

    c.Rearranged R c' → standard.compileChain c own n = .ok (e, n') →
      ∃ e' m', standard.compileChain c' own m = .ok (e', m') ∧ Alike R own e e'
-/

namespace Intake

open Entity Schedule

namespace Entity

/-- Entities with the same presence rules, pipelines and kinds, whose objects have alike members
under the same names.  `own` is the name under which both are members. -/
inductive Alike (R : List String → List String → Prop) : Option String → Entity → Entity → Prop
  | single {own : Option String} {n n' : Nat} {source source' : Chain}
      {resolver resolver' : Option Entity} {body : Body} (props : source'.props = source.props)
      (hr : Resolves source.props.default? resolver)
      (hr' : Resolves source.props.default? resolver') (hb : Single body) :
      Alike R own (.mk n source resolver body) (.mk n' source' resolver' body)
  | array {own : Option String} {n n' : Nat} {source source' : Chain}
      {resolver resolver' : Option Entity} {pipeline : Pipeline} {items items' : Entity}
      (props : source'.props = source.props) (hr : Resolves source.props.default? resolver)
      (hr' : Resolves source.props.default? resolver') (silent : items.references = [])
      (hi : Alike R none items items') :
      Alike R own (.mk n source resolver (.behaviour pipeline (.array (some items))))
        (.mk n' source' resolver' (.behaviour pipeline (.array (some items'))))
  | object {own : Option String} {n n' : Nat} {source source' : Chain}
      {resolver resolver' : Option Entity} {pipeline : Pipeline}
      {members members' : List (String × Entity)} {schedule schedule' : Schedule String}
      {policy : UnknownKeys} {escaping escaping' : List Path}
      (props : source'.props = source.props) (hr : Resolves source.props.default? resolver)
      (hr' : Resolves source.props.default? resolver')
      (hs : schedule.Arranges own (members.map fun m => (m.1, m.2.references)) escaping)
      (hs' : schedule'.Arranges own (members'.map fun m => (m.1, m.2.references)) escaping')
      (names : R (members.map (·.1)) (members'.map (·.1)))
      (hm : ∀ {name member member'}, Table.get? members name = some member →
        Table.get? members' name = some member' → Alike R (some name) member member') :
      Alike R own
        (.mk n source resolver (.behaviour pipeline (.object members schedule policy escaping)))
        (.mk n' source' resolver'
          (.behaviour pipeline (.object members' schedule' policy escaping')))

/-! ## Members under the same names -/

section

variable {members members' : List (String × Entity)}

/-- The member of the same name. -/
theorem exists_member (hnames : ∀ s, s ∈ members.map (·.1) ↔ s ∈ members'.map (·.1))
    {name : String} {member : Entity} (hm : Table.get? members name = some member) :
    ∃ member', Table.get? members' name = some member' := by
  have hname := (hnames name).1 (Table.mem_names_of_get? hm)
  exact Option.isSome_iff_exists.1 (Table.contains_iff.2 hname)

/-- Members of the same names that look up the same paths include one another. -/
theorem includes_members (hnodup : (members'.map (·.1)).Nodup)
    (hnames : ∀ s, s ∈ members.map (·.1) ↔ s ∈ members'.map (·.1))
    (hpaths : ∀ {name member member'}, Table.get? members name = some member →
      Table.get? members' name = some member' → ∀ path ∈ member'.references,
        path ∈ member.references) :
    Includes (members.map fun m => (m.1, m.2.references))
      (members'.map fun m => (m.1, m.2.references)) := by
  refine ⟨fun s => ?_, fun m' hm' => ?_⟩
  · rw [Table.names_map, Table.names_map]
    exact hnames s
  · obtain ⟨⟨name, member'⟩, hmem, rfl⟩ := List.mem_map.1 hm'
    have hm' := Table.get?_of_mem hnodup hmem
    obtain ⟨member, hm⟩ := exists_member (fun s => (hnames s).symm) hm'
    exact ⟨_, List.mem_map.2 ⟨_, Table.mem_of_get? hm, rfl⟩, rfl, hpaths hm hm'⟩

end

namespace Alike

variable {R : List String → List String → Prop} {own : Option String} {e e' : Entity}

/-- Both are compiled entities. -/
theorem arranged (hR : Shuffles R) (h : Alike R own e e') : Arranged own e ∧ Arranged own e' := by
  induction h with
  | single props hr hr' hb => exact ⟨.single hr hb, .single (props ▸ hr') hb⟩
  | array props hr hr' _ _ ih => exact ⟨.array hr ih.1, .array (props ▸ hr') ih.2⟩
  | @object own n n' source source' resolver resolver' pipeline members members' schedule schedule'
      policy escaping escaping' props hr hr' hs hs' names hm ih =>
    refine ⟨.object hr hs fun m hmem => ?_, .object (props ▸ hr') hs' fun m hmem => ?_⟩
    · have hmember := Table.get?_of_mem hs.nodup_members hmem
      obtain ⟨member', hm'⟩ := exists_member (fun s => hR.mem_iff names) hmember
      exact (ih hmember hm').1
    · have hmember := Table.get?_of_mem hs'.nodup_members hmem
      obtain ⟨member, hm⟩ := exists_member (fun s => (hR.mem_iff names).symm) hmember
      exact (ih hm hmember).2

/-- Both look up the same paths. -/
theorem mem_references_iff (hR : Shuffles R) (h : Alike R own e e') {path : Path} :
    path ∈ e.references ↔ path ∈ e'.references := by
  induction h generalizing path with
  | single props hr hr' hb => simp [references, mem_distinct, props]
  | array props hr hr' silent hi ih =>
    have hnone := List.eq_nil_iff_forall_not_mem.2 fun path hpath =>
      List.not_mem_nil (silent ▸ ih.2 hpath)
    simp [references, mem_distinct, props, bodyReferences, hookReferences, silent, hnone, target?]
  | @object own n n' source source' resolver resolver' pipeline members members' schedule schedule'
      policy escaping escaping' props hr hr' hs hs' names hm ih =>
    have hnames : ∀ s, s ∈ members.map (·.1) ↔ s ∈ members'.map (·.1) := fun s => hR.mem_iff names
    have hescaping : path ∈ escaping ↔ path ∈ escaping' := by
      constructor
      · exact (includes_members hs.nodup_members (fun s => (hnames s).symm)
          fun hm' hm => fun path => (ih hm hm').1).escaping_subset hs' hs path
      · exact (includes_members hs'.nodup_members hnames
          fun hm hm' => fun path => (ih hm hm').2).escaping_subset hs hs' path
    simp [references, mem_distinct, props, bodyReferences, hookReferences, hescaping, target?]

end Alike

/-! ## Silent chains -/

section

variable {own : Option String} {e : Entity} {source : Chain} {body : Body}

/-- An entity looks up nothing if its chain does not, and nothing comes from inside. -/
theorem references_eq_nil_of {n : Nat} {resolver : Option Entity} (h : FitsBody source body)
    (hreads : source.reads = []) (hinside : escapingOf body = []) :
    (mk n source resolver body).references = [] := by
  refine List.eq_nil_iff_forall_not_mem.2 fun path hpath => ?_
  rcases reads_of_references h hpath with hpath | hpath
  · rw [hreads] at hpath
    cases hpath
  · rw [hinside] at hpath
    cases hpath

/-- The entity of a silent chain looks up nothing, and nothing escapes from it. -/
theorem references_eq_nil (h : Arranged own e) (hfits : e.Throughout Fits)
    (hs : e.source.Silent) : e.references = [] := by
  have hreads := hs [] _ rfl
  have hbody := (hfits [] _ rfl).body
  induction h with
  | @single own n source resolver body hr hb =>
    refine references_eq_nil_of hbody hreads ?_
    cases body with
    | behaviour pipeline hooks =>
      cases hooks with
      | array items =>
        cases items with
        | none => rfl
        | some items => exact hb.elim
      | object members schedule policy escaping => exact hb.elim
      | custom hooks => exact absurd hbody FitsBody.not_custom
      | _ => rfl
    | _ => rfl
  | @array own n source resolver pipeline items hr hi ih =>
    have hchild : (mk n source resolver (.behaviour pipeline (.array (some items)))).child? "" =
      some items := rfl
    have hitems := hfits.child hchild
    have hs := hs.child ((hfits [] _ rfl).child? hchild)
    exact references_eq_nil_of hbody hreads
      (ih hitems hs (hs [] _ rfl) (hitems [] _ rfl).body)
  | @object own n source resolver pipeline members schedule policy escaping hr ha hm ih =>
    refine references_eq_nil_of hbody hreads ?_
    refine List.eq_nil_iff_forall_not_mem.2 fun path hpath => ?_
    obtain ⟨_, hasks, hpath, -⟩ := ha.mem_escaping_iff.1 hpath
    obtain ⟨⟨name, member⟩, hmem, rfl⟩ := List.mem_map.1 hasks
    have hchild : (mk n source resolver
        (.behaviour pipeline (.object members schedule policy escaping))).child? name =
      some member := Table.get?_of_mem ha.nodup_members hmem
    have hmember := hfits.child hchild
    have hs := hs.child ((hfits [] _ rfl).child? hchild)
    have hnone : member.references = [] :=
      ih _ hmem hmember hs (hs [] _ rfl) (hmember [] _ rfl).body
    rw [hnone] at hpath
    cases hpath

end

/-! ## Entities of rearranged chains -/

section

variable {R : List String → List String → Prop} {c c' : Chain} {own : Option String} {e e' : Entity}

theorem Arranged.resolves {n : Nat} {source : Chain} {resolver : Option Entity} {body : Body}
    (h : Arranged own (.mk n source resolver body)) : Resolves source.props.default? resolver := by
  cases h <;> assumption

/-- The body of a chain that holds no other is determined by the chain. -/
theorem FitsBody.of_leaf {source : Chain} {body body' : Body} (hleaf : source.kind.Leaf)
    (h : FitsBody source body) (h' : FitsBody source body') : body' = body ∧ Single body := by
  generalize hk : source.kind = kind at hleaf
  cases h.fitted hk with
  | items entity => exact hleaf.elim
  | object members schedule escaping => exact hleaf.elim
  | _ =>
    cases h'.fitted hk
    exact ⟨rfl, trivial⟩

/-- Entities of rearranged chains are alike. -/
theorem alike_of_fits (h : Chain.Rearranged R c c') (ha : Arranged own e) (ha' : Arranged own e')
    (hfits : e.Throughout Fits) (hfits' : e'.Throughout Fits) (hc : e.source = c)
    (hc' : e'.source = c') : Alike R own e e' := by
  induction h generalizing own e e' with
  | leaf hleaf =>
    obtain ⟨n, source, resolver, body⟩ := e
    obtain ⟨n', source', resolver', body'⟩ := e'
    obtain rfl : source = _ := hc
    obtain rfl : source' = source := hc'
    obtain ⟨rfl, hb⟩ := (hfits [] _ rfl).body.of_leaf hleaf (hfits' [] _ rfl).body
    exact .single rfl ha.resolves ha'.resolves hb
  | @array items items' props pipeline registry silent silent' hi ih =>
    obtain ⟨n, source, resolver, body⟩ := e
    obtain ⟨n', source', resolver', body'⟩ := e'
    obtain rfl : source = _ := hc
    obtain rfl : source' = _ := hc'
    obtain ⟨entity, hbody, hentity⟩ : ∃ entity : Entity, body = .behaviour (.ofSteps pipeline)
      (.array (some entity)) ∧ entity.source = items := (hfits [] _ rfl).body
    obtain ⟨entity', hbody', hentity'⟩ : ∃ entity : Entity, body' = .behaviour (.ofSteps pipeline)
      (.array (some entity)) ∧ entity.source = items' := (hfits' [] _ rfl).body
    subst hbody hbody'
    have hitems : entity.Throughout Fits := hfits.child (s := "") rfl
    have hitems' : entity'.Throughout Fits := hfits'.child (s := "") rfl
    have hnone := references_eq_nil (ha.of_items rfl) hitems (hentity ▸ silent)
    exact .array rfl ha.resolves ha'.resolves hnone
      (ih (ha.of_items rfl) (ha'.of_items rfl) hitems hitems' hentity hentity')
  | @object fields fields' props pipeline registry names hf ih =>
    obtain ⟨n, source, resolver, body⟩ := e
    obtain ⟨n', source', resolver', body'⟩ := e'
    obtain rfl : source = _ := hc
    obtain rfl : source' = _ := hc'
    obtain ⟨members, schedule, escaping, hbody, rfl⟩ : ∃ members schedule escaping,
      body = .behaviour (.ofSteps pipeline) (.object members schedule props.unknownKeys escaping) ∧
        members.map (fun m => (m.1, m.2.source)) = fields := (hfits [] _ rfl).body
    obtain ⟨members', schedule', escaping', hbody', rfl⟩ : ∃ members schedule escaping,
      body' = .behaviour (.ofSteps pipeline) (.object members schedule props.unknownKeys escaping) ∧
        members.map (fun m => (m.1, m.2.source)) = fields' := (hfits' [] _ rfl).body
    subst hbody hbody'
    rw [Table.names_map, Table.names_map] at names
    cases ha with
    | single hr hb => exact hb.elim
    | object hr hs hm =>
      cases ha' with
      | single hr' hb => exact hb.elim
      | object hr' hs' hm' =>
        refine .object rfl hr hr' hs hs' names fun {name member member'} hmember hmember' => ?_
        have hfield : ∀ {members : List (String × Entity)} {member : Entity},
            Table.get? members name = some member →
            Table.get? (members.map fun m => (m.1, m.2.source)) name = some member.source := by
          intro members member hmember
          rw [Table.get?_map, hmember]
          rfl
        exact ih (hfield hmember) (hfield hmember') (hm _ (Table.mem_of_get? hmember))
          (hm' _ (Table.mem_of_get? hmember')) (hfits.child hmember) (hfits'.child hmember') rfl rfl

end

end Entity

end Intake
