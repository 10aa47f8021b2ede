import Intake.Proofs.Entity.Alike
/-!
# Compiling rearranged chains

A chain compiles if its presence rules and options are fine, if what it holds compiles, and if its
members can be scheduled.  None of this depends on the order in which fields are declared, or on how
many entities have been numbered before:

    c.Rearranged R c' → standard.compileChain c own n = .ok (e, n') →
      ∀ m, ∃ e' m', standard.compileChain c' own m = .ok (e', m')

A silent chain compiles to the same entity under any name.
-/

namespace Intake

open Entity Schedule

namespace Mapper

/-- A stage of compilation ends well, however many entities have been numbered. -/
def Compiles {α : Type} (x : CompileM α) : Prop := ∀ n, ∃ a n', x n = .ok (a, n')

namespace Compiles

theorem pure {α : Type} (a : α) : Compiles (pure a : CompileM α) := fun n => ⟨a, n, rfl⟩

theorem compileDefault (default? : Option Operand) : Compiles (compileDefault default?) := by
  intro n
  cases default? with
  | none => exact ⟨none, n, rfl⟩
  | some operand =>
    cases operand with
    | literal v => exact ⟨none, n, rfl⟩
    | reference path => exact ⟨_, n + 1, rfl⟩

end Compiles

/-! ## Chains one by one -/

section

variable {kind : Kind} {props : Props} {pipeline : List Step} {registry : Registry}
  {own : Option String} {n n' : Nat} {e : Entity} {body : Body}

theorem Compiles.chain (hpresence : (Chain.mk kind props pipeline registry).checkPresence = .ok ())
    (h : Compiles (standard.compileKind kind (.mk kind props pipeline registry) own)) :
    Compiles (standard.compileChain (.mk kind props pipeline registry) own) := by
  intro n
  obtain ⟨resolver, k, hresolver⟩ := Compiles.compileDefault props.default? (n + 1)
  obtain ⟨body, n', hbody⟩ := h k
  exact ⟨_, n', compileChain_eq_ok.2 ⟨hpresence, resolver, k, body, hresolver, hbody, rfl⟩⟩

/-- A kind that holds no chain. -/
theorem Compiles.leaf {source : Chain} (hleaf : kind.Leaf)
    (h : standard.compileKind kind source own n = .ok (body, n')) :
    Compiles (standard.compileKind kind source own) := by
  cases kind with
  | array items =>
    cases items with
    | none => exact .pure _
    | some items => exact hleaf.elim
  | object fields => exact hleaf.elim
  | date =>
    obtain ⟨⟨hformat, -⟩, -⟩ := (compileDate_eq_ok rfl).1 h
    exact fun k => ⟨_, k, (compileDate_eq_ok rfl).2 ⟨⟨hformat, rfl⟩, rfl⟩⟩
  | _ => exact .pure _

theorem Compiles.object {fields : List (String × Chain)} {source : Chain}
    (h : Compiles (standard.compileMembers fields))
    (hmembers : ∀ {n members n'}, standard.compileMembers fields n = .ok (members, n') →
      ∃ schedule escaping, ofMembers own (members.map fun m => (m.1, m.2.references)) =
        .ok (schedule, escaping)) :
    Compiles (standard.compileKind (.object fields) source own) := by
  intro n
  obtain ⟨members, n', hm⟩ := h n
  obtain ⟨schedule, escaping, hmade⟩ := hmembers hm
  exact ⟨_, n', (compileObject_eq_ok rfl).2 ⟨members, schedule, escaping, hm, hmade, rfl⟩⟩

/-- Each field of an object that compiles does so. -/
theorem field_of_compileMembers {fields : List (String × Chain)} {n n' : Nat}
    {members : List (String × Entity)} (h : standard.compileMembers fields n = .ok (members, n')) :
    ∀ f ∈ fields, ∃ m e m', standard.compileChain f.2 (some f.1) m = .ok (e, m') := by
  induction fields generalizing n n' members with
  | nil => exact List.forall_mem_nil _
  | cons f rest ih =>
    obtain ⟨e, k, others, he, hothers, -⟩ := compileMembers_cons_eq_ok.1 h
    exact List.forall_mem_cons.2 ⟨⟨n, e, k, he⟩, ih hothers⟩

theorem Compiles.members {fields : List (String × Chain)}
    (h : ∀ f ∈ fields, Compiles (standard.compileChain f.2 (some f.1))) :
    Compiles (standard.compileMembers fields) := by
  induction fields with
  | nil => exact .pure _
  | cons f rest ih =>
    intro n
    obtain ⟨entity, k, hentity⟩ := h f List.mem_cons_self n
    obtain ⟨others, n', hothers⟩ := ih (fun f hf => h f (List.mem_cons_of_mem _ hf)) k
    exact ⟨_, n', compileMembers_cons_eq_ok.2 ⟨entity, k, others, hentity, hothers, rfl⟩⟩

/-- Each member has been compiled from a field of its name. -/
theorem member_of_compileMembers {fields : List (String × Chain)} {n n' : Nat}
    {members : List (String × Entity)} (h : standard.compileMembers fields n = .ok (members, n')) :
    ∀ m ∈ members, ∃ field k k', (m.1, field) ∈ fields ∧
      standard.compileChain field (some m.1) k = .ok (m.2, k') := by
  induction fields generalizing n n' members with
  | nil =>
    obtain ⟨rfl, -⟩ := CompileM.pure_eq_ok.1 h
    exact List.forall_mem_nil _
  | cons f rest ih =>
    obtain ⟨e, k, others, he, hothers, rfl⟩ := compileMembers_cons_eq_ok.1 h
    refine List.forall_mem_cons.2 ⟨⟨f.2, n, k, List.mem_cons_self, he⟩, fun m hm => ?_⟩
    obtain ⟨field, j, j', hmem, hfield⟩ := ih hothers m hm
    exact ⟨field, j, j', List.mem_cons_of_mem _ hmem, hfield⟩

/-- The member that a field has become. -/
theorem get?_compileMembers {fields : List (String × Chain)} {n n' : Nat}
    {members : List (String × Entity)} (h : standard.compileMembers fields n = .ok (members, n'))
    {name : String} {member : Entity} (hm : Table.get? members name = some member) :
    Table.get? fields name = some member.source ∧ Arranged (some name) member ∧
      member.Throughout Fits := by
  obtain ⟨hsources, hfits⟩ := compileMembers_fits fields n n' members h
  have hmem := Table.mem_of_get? hm
  refine ⟨?_, compileMembers_arranged standard fields n n' members h _ hmem, hfits _ hmem⟩
  rw [← hsources, Table.get?_map, hm]
  rfl

end

/-! ## Trees -/

section

variable {R : List String → List String → Prop} {c c' : Chain} {own : Option String}
  {n n' m m' : Nat} {e e' : Entity}

/-- Entities that rearranged chains compile to are alike. -/
theorem alike_of_compileChain (h : c.Rearranged R c')
    (he : standard.compileChain c own n = .ok (e, n'))
    (he' : standard.compileChain c' own m = .ok (e', m')) : Alike R own e e' := by
  obtain ⟨hc, hfits⟩ := compileChain_fits c own n n' e he
  obtain ⟨hc', hfits'⟩ := compileChain_fits c' own m m' e' he'
  exact alike_of_fits h (compileChain_arranged standard c own n n' e he)
    (compileChain_arranged standard c' own m m' e' he') hfits hfits' hc hc'

/-- A rearranged chain compiles if the chain does. -/
theorem compiles_rearranged (hR : Shuffles R) (h : c.Rearranged R c')
    (he : standard.compileChain c own n = .ok (e, n')) :
    Compiles (standard.compileChain c' own) := by
  induction h generalizing own n n' e with
  | @leaf c hleaf =>
    obtain ⟨kind, props, pipeline, registry⟩ := c
    obtain ⟨hpresence, _, _, _, -, hbody, -⟩ := compileChain_eq_ok.1 he
    exact .chain hpresence (.leaf hleaf hbody)
  | @array items items' props pipeline registry silent silent' hi ih =>
    obtain ⟨hpresence, _, _, _, -, hbody, -⟩ := compileChain_eq_ok.1 he
    obtain ⟨_, hitems, -⟩ := (compileItems_eq_ok rfl).1 hbody
    refine .chain hpresence fun k => ?_
    obtain ⟨entity, k', hentity⟩ := ih hitems k
    exact ⟨_, k', (compileItems_eq_ok rfl).2 ⟨entity, hentity, rfl⟩⟩
  | @object fields fields' props pipeline registry names hf ih =>
    obtain ⟨hpresence, _, _, _, -, hbody, -⟩ := compileChain_eq_ok.1 he
    obtain ⟨members, schedule, escaping, hmembers, hmade, -⟩ := (compileObject_eq_ok rfl).1 hbody
    have ha := ofMembers_arranges hmade
    have hnames : members.map (·.1) = fields.map (·.1) := by
      rw [← (compileMembers_fits fields _ _ members hmembers).1, Table.names_map]
    have hnodup : (fields.map (·.1)).Nodup := hnames ▸ ha.nodup_members
    have hnodup' : (fields'.map (·.1)).Nodup := (hR.perm names).nodup_iff.1 hnodup
    refine .chain hpresence
      (.object (.members fun f' hf' => ?_) fun {k members' k'} hmembers' => ?_)
    · -- the field of the same name compiles
      have hname := (hR.mem_iff names).2 (List.mem_map_of_mem (f := (·.1)) hf')
      obtain ⟨field, hfield⟩ := Option.isSome_iff_exists.1 (Table.contains_iff.2 hname)
      obtain ⟨_, _, _, hcompiles⟩ :=
        field_of_compileMembers hmembers _ (Table.mem_of_get? hfield)
      exact ih hfield (Table.get?_of_mem hnodup' hf') hcompiles
    · have hnames' : members'.map (·.1) = fields'.map (·.1) := by
        rw [← (compileMembers_fits fields' _ _ members' hmembers').1, Table.names_map]
      have hsame : ∀ s, s ∈ members.map (·.1) ↔ s ∈ members'.map (·.1) := by
        rw [hnames, hnames']
        exact fun s => hR.mem_iff names
      have hincludes := includes_members (hnames' ▸ hnodup') hsame fun hm hm' path hpath => by
        obtain ⟨hsource, harranged, hfits⟩ := get?_compileMembers hmembers hm
        obtain ⟨hsource', harranged', hfits'⟩ := get?_compileMembers hmembers' hm'
        have halike := alike_of_fits (hf hsource hsource') harranged harranged' hfits hfits' rfl rfl
        exact (halike.mem_references_iff hR).2 hpath
      refine hincludes.exists_ofMembers ha ?_
      rw [Table.names_map, hnames']
      exact hnodup'

/-- A silent chain compiles to the same entity under any name. -/
theorem compileChain_silent (hs : c.Silent) (he : standard.compileChain c own n = .ok (e, n'))
    (own' : Option String) : standard.compileChain c own' n = .ok (e, n') := by
  obtain ⟨kind, props, pipeline, registry⟩ := c
  cases kind with
  | object fields =>
    obtain ⟨hpresence, resolver, k, body, hresolver, hbody, rfl⟩ := compileChain_eq_ok.1 he
    obtain ⟨members, schedule, escaping, hmembers, hmade, rfl⟩ := (compileObject_eq_ok rfl).1 hbody
    have ha := ofMembers_arranges hmade
    have hnone : ∀ m ∈ members.map fun m => (m.1, m.2.references), m.2 = [] := by
      intro _ hmem
      obtain ⟨⟨name, member⟩, hm, rfl⟩ := List.mem_map.1 hmem
      obtain ⟨hfield, harranged, hfits⟩ :=
        get?_compileMembers hmembers (Table.get?_of_mem ha.nodup_members hm)
      exact references_eq_nil harranged hfits (hs.child hfield)
    rw [ofMembers_silent hnone own own'] at hmade
    refine compileChain_eq_ok.2 ⟨hpresence, resolver, k, _, hresolver, ?_, rfl⟩
    exact (compileObject_eq_ok rfl).2 ⟨members, schedule, escaping, hmembers, hmade, rfl⟩
  | array items => cases items <;> exact he
  | _ => exact he

end

end Mapper

end Intake
