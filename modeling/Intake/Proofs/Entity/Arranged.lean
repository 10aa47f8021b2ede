import Intake.Proofs.Entity.Compiling
/-!
# Compiled entities

`Arranged own e` says of an entity, and of every entity inside of it, what compilation
guarantees: a default that is a path has the entity that looks it up, and the members of an
object are scheduled (`Schedule.Arranges`).  `own` is the name under which the entity is a member.

    m.compile c = .ok e → Arranged none e

Its derivations follow the tree of entities, so what a run does is proved by induction on them.
-/

namespace Intake

namespace Entity

/-- The entity that a default needs: one that looks up its path, if it is a path. -/
def Resolves : Option Operand → Option Entity → Prop
  | some (.reference path), resolver =>
    ∃ id, resolver = some (.mk id (.ofPath path) none (.reference path (.ofSteps [])))
  | _, resolver => resolver = none

/-- A body without items and members. -/
def Single : Body → Prop
  | .behaviour _ (.array (some _)) => False
  | .behaviour _ (.object _ _ _ _) => False
  | _ => True

inductive Arranged : Option String → Entity → Prop
  | single {own : Option String} {id : Nat} {source : Chain} {resolver : Option Entity}
      {body : Body} (hr : Resolves source.props.default? resolver) (hb : Single body) :
      Arranged own (.mk id source resolver body)
  | array {own : Option String} {id : Nat} {source : Chain} {resolver : Option Entity}
      {pipeline : Pipeline} {items : Entity} (hr : Resolves source.props.default? resolver)
      (hi : Arranged none items) :
      Arranged own (.mk id source resolver (.behaviour pipeline (.array (some items))))
  | object {own : Option String} {id : Nat} {source : Chain} {resolver : Option Entity}
      {pipeline : Pipeline} {members : List (String × Entity)} {schedule : Schedule String}
      {policy : UnknownKeys} {escaping : List Path}
      (hr : Resolves source.props.default? resolver)
      (hs : schedule.Arranges own (members.map fun m => (m.1, m.2.references)) escaping)
      (hm : ∀ m ∈ members, Arranged (some m.1) m.2) :
      Arranged own (.mk id source resolver
        (.behaviour pipeline (.object members schedule policy escaping)))

/-- The items of a list have no name of their own. -/
theorem Arranged.of_items {own : Option String} {e items : Entity} {pipeline : Pipeline}
    (h : Arranged own e) (hb : e.body = .behaviour pipeline (.array (some items))) :
    Arranged none items := by
  cases h with
  | @single _ n source resolver body hr hs =>
    obtain rfl : body = _ := hb
    exact hs.elim
  | array hr hi =>
    obtain ⟨-, hitems⟩ := Body.behaviour.inj hb
    exact Option.some.inj (Hooks.array.inj hitems) ▸ hi
  | object hr hs hm => cases hb

theorem Arranged.members {own : Option String} {n : Nat} {source : Chain} {resolver : Option Entity}
    {pipeline : Pipeline} {members : List (String × Entity)} {schedule : Schedule String}
    {policy : UnknownKeys} {escaping : List Path}
    (h : Arranged own
      (.mk n source resolver (.behaviour pipeline (.object members schedule policy escaping)))) :
    ∀ m ∈ members, Arranged (some m.1) m.2 := by
  cases h with
  | single hr hb => exact hb.elim
  | object hr hs hm => exact hm

/-- The schedule of an object's members. -/
def schedule? (e : Entity) : Option (Schedule String) :=
  match e.body with
  | .behaviour _ (.object _ schedule _ _) => some schedule
  | _ => none

/-- What has a schedule is an object, and its members are arranged. -/
theorem Arranged.of_schedule? {own : Option String} {e : Entity} {schedule : Schedule String}
    (h : Arranged own e) (hs : e.schedule? = some schedule) :
    ∃ pipeline members policy escaping,
      e.body = .behaviour pipeline (.object members schedule policy escaping) ∧
      schedule.Arranges own (members.map fun m => (m.1, m.2.references)) escaping ∧
      ∀ m ∈ members, Arranged (some m.1) m.2 := by
  cases h with
  | @single _ n source resolver body hr hb =>
    unfold schedule? at hs
    split at hs
    · next hbody =>
      obtain rfl : body = _ := hbody
      exact hb.elim
    · cases hs
  | array hr hi => cases hs
  | object hr ha hm =>
    obtain rfl := Option.some.inj hs
    exact ⟨_, _, _, _, rfl, ha, hm⟩

end Entity

section Members

variable {own : Option String} {members : List (String × Entity)} {schedule : Schedule String}
  {escaping : List Path}

/-- What a schedule of members orders are the members, under their names. -/
theorem Schedule.Arranges.names_members
    (ha : schedule.Arranges own (members.map fun m => (m.1, m.2.references)) escaping) :
    Table.names schedule.nodes = members.map (·.1) :=
  ha.names.trans (Table.names_map _ members)

theorem Schedule.Arranges.nodup_members
    (ha : schedule.Arranges own (members.map fun m => (m.1, m.2.references)) escaping) :
    (members.map (·.1)).Nodup :=
  ha.names_members ▸ ha.sound.nodup

/-- Where a path leads that a member of an object looks up: to itself, to a sibling that runs
before, back in through the object's own name to such a sibling or to none, or out. -/
theorem Schedule.Arranges.leads
    (ha : schedule.Arranges own (members.map fun m => (m.1, m.2.references)) escaping)
    {name first : String} {e : Entity} {path : Path} {rest : List String}
    (he : Table.get? members name = some e) (hpath : path ∈ e.references)
    (hsegments : path.segments = first :: rest) :
    first = name ∨
      (first ∈ members.map (·.1) ∧ Joins schedule.edges first name) ∨
      (first ∉ members.map (·.1) ∧ own = some first ∧ ∃ second rest', rest = second :: rest' ∧
        (second ∈ members.map (·.1) → Joins schedule.edges second name)) ∨
      (first ∉ members.map (·.1) ∧ own ≠ some first ∧ path ∈ escaping) := by
  have hcourse := ha.courses (name, e.references)
    (List.mem_map.2 ⟨(name, e), Table.mem_of_get? he, rfl⟩) path hpath
  simp only [Table.names_map, course, hsegments] at hcourse
  split at hcourse
  · next hname => exact .inl hname
  · split at hcourse
    · next hmem => exact .inr (.inl ⟨hmem, hcourse⟩)
    · next hmem =>
      split at hcourse
      · next hown =>
        refine .inr (.inr (.inl ⟨hmem, hown, ?_⟩))
        cases rest with
        | nil => exact hcourse.elim
        | cons second rest' =>
          refine ⟨second, rest', rfl, fun hsecond => ?_⟩
          simp only [if_pos hsecond] at hcourse
          exact hcourse
      · next hown => exact .inr (.inr (.inr ⟨hmem, hown, hcourse⟩))

end Members

namespace Mapper

open Entity

theorem compileDefault_resolves {default? : Option Operand} {n n' : Nat}
    {resolver : Option Entity} (h : compileDefault default? n = .ok (resolver, n')) :
    Resolves default? resolver := by
  cases default? with
  | none => exact (CompileM.pure_eq_ok.1 h).1.symm
  | some operand =>
    cases operand with
    | literal v => exact (CompileM.pure_eq_ok.1 h).1.symm
    | reference path =>
      obtain ⟨e, he, rfl⟩ := CompileM.map_eq_ok.1 h
      obtain ⟨id, k, -, hp⟩ := CompileM.bind_eq_ok.1 he
      obtain ⟨rfl, -⟩ := CompileM.pure_eq_ok.1 hp
      exact ⟨id, rfl⟩

/-- A body that completes to an arranged entity, whatever entity it is put in. -/
def Completes (own : Option String) (body : Body) : Prop :=
  ∀ (id : Nat) (source : Chain) (resolver : Option Entity),
    Resolves source.props.default? resolver → Arranged own (.mk id source resolver body)

theorem completes_of_single {own : Option String} {body : Body} (h : Single body) :
    Completes own body :=
  fun _ _ _ hr => .single hr h

theorem single_behave (m : Mapper) (source : Chain) (tag : KindTag) {hooks : Hooks}
    (h : ∀ pipeline, Single (.behaviour pipeline hooks)) : Single (m.behave source tag hooks) := by
  unfold behave
  split
  · exact h _
  · trivial

mutual

theorem compileChain_arranged (m : Mapper) : ∀ (c : Chain) (own : Option String) (n n' : Nat)
    (e : Entity), m.compileChain c own n = .ok (e, n') → Arranged own e
  | .mk kind props pipeline registry, own, n, n', e, h => by
    obtain ⟨-, resolver, k, body, hresolver, hbody, rfl⟩ := compileChain_eq_ok.1 h
    exact compileKind_completes m kind _ own k n' body hbody n _ resolver
      (compileDefault_resolves hresolver)

theorem compileKind_completes (m : Mapper) : ∀ (kind : Kind) (source : Chain)
    (own : Option String) (n n' : Nat) (body : Body),
    m.compileKind kind source own n = .ok (body, n') → Completes own body
  | .reference path, source, own, n, n', body, h => by
    obtain ⟨rfl, -⟩ := CompileM.pure_eq_ok.1 h
    exact completes_of_single trivial
  | .custom name, source, own, n, n', body, h => by
    cases hk : Table.get? m.custom name with
    | none =>
      simp only [compileKind, hk] at h
      obtain ⟨rfl, -⟩ := CompileM.pure_eq_ok.1 h
      exact completes_of_single trivial
    | some kind =>
      simp only [compileKind, hk, CompileM.bind_eq_ok] at h
      obtain ⟨_, _, -, hooks, _, -, hout⟩ := h
      obtain ⟨rfl, -⟩ := CompileM.pure_eq_ok.1 hout
      exact completes_of_single trivial
  | .any, source, own, n, n', body, h
  | .string, source, own, n, n', body, h
  | .number, source, own, n, n', body, h
  | .boolean, source, own, n, n', body, h
  | .array none, source, own, n, n', body, h => by
    obtain ⟨rfl, -⟩ := CompileM.pure_eq_ok.1 h
    exact completes_of_single (single_behave m source _ fun _ => trivial)
  | .date, source, own, n, n', body, h => by
    by_cases hm : m.handles .date
    · obtain ⟨-, rfl⟩ := (compileDate_eq_ok hm).1 h
      exact completes_of_single trivial
    · rw [compileKind, if_neg hm] at h
      obtain ⟨rfl, -⟩ := CompileM.pure_eq_ok.1 h
      exact completes_of_single trivial
  | .array (some items), source, own, n, n', body, h => by
    by_cases hm : m.handles .array
    · obtain ⟨entity, hitems, rfl⟩ := (compileItems_eq_ok hm).1 h
      exact fun id src resolver hr =>
        .array hr (compileChain_arranged m items none n n' entity hitems)
    · rw [compileKind, if_neg hm] at h
      obtain ⟨rfl, -⟩ := CompileM.pure_eq_ok.1 h
      exact completes_of_single trivial
  | .object fields, source, own, n, n', body, h => by
    by_cases hm : m.handles .object
    · obtain ⟨members, schedule, escaping, hmembers, hschedule, rfl⟩ :=
        (compileObject_eq_ok hm).1 h
      exact fun id src resolver hr => .object hr (Schedule.ofMembers_arranges hschedule)
        (compileMembers_arranged m fields n n' members hmembers)
    · rw [compileKind, if_neg hm] at h
      obtain ⟨rfl, -⟩ := CompileM.pure_eq_ok.1 h
      exact completes_of_single trivial

theorem compileMembers_arranged (m : Mapper) : ∀ (fields : List (String × Chain)) (n n' : Nat)
    (members : List (String × Entity)), m.compileMembers fields n = .ok (members, n') →
    ∀ member ∈ members, Arranged (some member.1) member.2
  | [], n, n', members, h => by
    obtain ⟨rfl, -⟩ := CompileM.pure_eq_ok.1 h
    simp
  | (name, field) :: rest, n, n', members, h => by
    obtain ⟨entity, k, others, hentity, hothers, rfl⟩ := compileMembers_cons_eq_ok.1 h
    exact List.forall_mem_cons.2 ⟨compileChain_arranged m field (some name) n k entity hentity,
      compileMembers_arranged m rest k n' others hothers⟩

end

theorem compile_eq_ok {m : Mapper} {c : Chain} {e : Entity} :
    m.compile c = .ok e ↔ ∃ n, m.compileChain c none 0 = .ok (e, n) := by
  unfold compile compileCounting
  change (m.compileChain c none 0).map (·.1) = .ok e ↔ _
  cases m.compileChain c none 0 with
  | error err => simp [Except.map]
  | ok out => simp [Except.map, Prod.ext_iff]

theorem compile_arranged {m : Mapper} {c : Chain} {e : Entity} (h : m.compile c = .ok e) :
    Arranged none e := by
  obtain ⟨n, h⟩ := compile_eq_ok.1 h
  exact compileChain_arranged m c none 0 n e h

/-- What an object compiles to. -/
theorem compile_object {m : Mapper} (hm : m.handles .object) {c : Chain}
    {fields : List (String × Chain)} (hc : c.kind = .object fields) {e : Entity}
    (h : m.compile c = .ok e) :
    ∃ id resolver members schedule escaping, e = .mk id c resolver (.behaviour
      (.ofSteps c.pipeline) (.object members schedule c.props.unknownKeys escaping)) := by
  obtain ⟨kind, props, pipeline, registry⟩ := c
  obtain rfl : kind = .object fields := hc
  obtain ⟨n, h⟩ := compile_eq_ok.1 h
  obtain ⟨-, resolver, k, body, -, hbody, rfl⟩ := compileChain_eq_ok.1 h
  obtain ⟨members, schedule, escaping, -, -, rfl⟩ := (compileObject_eq_ok hm).1 hbody
  exact ⟨0, resolver, members, schedule, escaping, rfl⟩

end Mapper

/-- A pipeline without a format step. -/
theorem Pipeline.format_ofSteps {steps : List Step} (h : Chain.formatStep? steps = none) :
    (Pipeline.ofSteps steps).format = none := by
  cases steps with
  | nil => rfl
  | cons first rest =>
    have hfirst : ¬ first.isFormat := by
      simpa using List.find?_eq_none.1 h first List.mem_cons_self
    have hfirst : ¬ first.processor.isFormat := hfirst
    simp only [Pipeline.ofSteps, List.map_cons, if_neg hfirst]

end Intake
