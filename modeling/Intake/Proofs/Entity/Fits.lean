import Intake.Proofs.Entity.Arranged
import Intake.Proofs.Chain.Built
import Intake.Proofs.Run.Told
/-!
# Entities and their chains

An entity `Fits` its chain if it does what the kind of the chain asks for, with the entities of
the chains that it holds, and if the presence rules of the chain do not contradict each other.
The standard mapper makes nothing else:

    Mapper.standard.compile c = .ok e → e.source = c ∧ e.Throughout Fits

Entities and chains then have the same addresses (`Fits.at?`).
-/

namespace Intake

/-- The pipeline that a body runs. -/
def Body.pipeline? : Body → Option Pipeline
  | .base => none
  | .reference _ pipeline => some pipeline
  | .behaviour pipeline _ => some pipeline

namespace Entity

/-- The body that a chain asks for. -/
def FitsBody (source : Chain) (body : Body) : Prop :=
  let pipeline := Pipeline.ofSteps source.pipeline
  match source.kind with
  | .any => body = .behaviour pipeline .pass
  | .string => body = .behaviour pipeline (.check .string)
  | .number => body = .behaviour pipeline (.check .number)
  | .boolean => body = .behaviour pipeline (.check .boolean)
  | .date => body = .behaviour pipeline (.date source.props.outputFormat)
  | .array none => body = .behaviour pipeline (.array none)
  | .array (some items) => ∃ entity : Entity,
      body = .behaviour pipeline (.array (some entity)) ∧ entity.source = items
  | .object fields => ∃ members schedule escaping,
      body = .behaviour pipeline (.object members schedule source.props.unknownKeys escaping) ∧
        members.map (fun m => (m.1, m.2.source)) = fields
  | .reference path => body = .reference path pipeline
  | .custom _ => body = .base

/-- What `FitsBody` allows, one rule for each kind: the entities of the body have the chains that
the kind holds. -/
inductive Fitted (pipeline : Pipeline) (props : Props) : Kind → Body → Prop
  | any : Fitted pipeline props .any (.behaviour pipeline .pass)
  | string : Fitted pipeline props .string (.behaviour pipeline (.check .string))
  | number : Fitted pipeline props .number (.behaviour pipeline (.check .number))
  | boolean : Fitted pipeline props .boolean (.behaviour pipeline (.check .boolean))
  | date : Fitted pipeline props .date (.behaviour pipeline (.date props.outputFormat))
  | list : Fitted pipeline props (.array none) (.behaviour pipeline (.array none))
  | items (entity : Entity) :
      Fitted pipeline props (.array (some entity.source)) (.behaviour pipeline (.array (some entity)))
  | object (members : List (String × Entity)) (schedule : Schedule String) (escaping : List Path) :
      Fitted pipeline props (.object (members.map fun m => (m.1, m.2.source)))
        (.behaviour pipeline (.object members schedule props.unknownKeys escaping))
  | reference (path : Path) : Fitted pipeline props (.reference path) (.reference path pipeline)
  | custom (name : String) : Fitted pipeline props (.custom name) .base

theorem FitsBody.fitted {source : Chain} {body : Body} (h : FitsBody source body) {kind : Kind}
    (hkind : source.kind = kind) :
    Fitted (.ofSteps source.pipeline) source.props kind body := by
  unfold FitsBody at h
  rw [hkind] at h
  cases kind with
  | array items =>
    cases items with
    | none =>
      obtain rfl : body = _ := h
      exact .list
    | some items =>
      obtain ⟨entity, rfl, rfl⟩ := h
      exact .items entity
  | object fields =>
    obtain ⟨members, schedule, escaping, rfl, rfl⟩ := h
    exact .object members schedule escaping
  | _ =>
    obtain rfl : body = _ := h
    constructor

section

variable {source item : Chain} {body : Body} {fields : List (String × Chain)}

theorem FitsBody.of_any (h : FitsBody source body) (hkind : source.kind = .any) :
    body = .behaviour (.ofSteps source.pipeline) .pass := by
  cases h.fitted hkind
  rfl

theorem FitsBody.of_date (h : FitsBody source body) (hkind : source.kind = .date) :
    body = .behaviour (.ofSteps source.pipeline) (.date source.props.outputFormat) := by
  cases h.fitted hkind
  rfl

theorem FitsBody.of_items (h : FitsBody source body) (hkind : source.kind = .array (some item)) :
    ∃ entity : Entity,
      body = .behaviour (.ofSteps source.pipeline) (.array (some entity)) ∧
        entity.source = item := by
  cases h.fitted hkind with
  | items entity => exact ⟨entity, rfl, rfl⟩

theorem FitsBody.of_object (h : FitsBody source body) (hkind : source.kind = .object fields) :
    ∃ members schedule escaping,
      body = .behaviour (.ofSteps source.pipeline)
        (.object members schedule source.props.unknownKeys escaping) ∧
        members.map (fun m => (m.1, m.2.source)) = fields := by
  cases h.fitted hkind with
  | object members schedule escaping => exact ⟨members, schedule, escaping, rfl, rfl⟩

end

/-- A fitting body runs the pipeline of its chain. -/
theorem FitsBody.pipeline_eq {source : Chain} {body : Body} {pipeline : Pipeline}
    (h : FitsBody source body) (hpipeline : body.pipeline? = some pipeline) :
    pipeline = .ofSteps source.pipeline := by
  have hfitted := h.fitted rfl
  generalize source.kind = kind at hfitted
  cases hfitted with
  | custom name => cases hpipeline
  | _ => exact (Option.some.inj hpipeline).symm

/-- The standard mapper makes no custom kind. -/
theorem FitsBody.not_custom {source : Chain} {p : Pipeline} {custom : CustomHooks} :
    ¬ FitsBody source (.behaviour p (.custom custom)) := by
  intro h
  have hfitted := h.fitted rfl
  generalize source.kind = kind at hfitted
  cases hfitted

structure Fits (e : Entity) : Prop where
  presence : Chain.presenceConflict? e.source.props = none
  body : FitsBody e.source e.body

/-- The chains of the children are those that the chain holds. -/
theorem Fits.child?_eq {e : Entity} (h : e.Fits) (s : String) :
    e.source.kind.child? s = (e.child? s).map (·.source) := by
  obtain ⟨n, source, resolver, body⟩ := e
  have hbody : FitsBody source body := h.body
  show source.kind.child? s = _
  generalize hkind : source.kind = kind
  cases hbody.fitted hkind with
  | object members schedule escaping =>
    show Table.get? (members.map fun m => (m.1, m.2.source)) s = (Table.get? members s).map _
    rw [Table.get?_map]
  | _ => rfl

theorem Fits.child? {e member : Entity} (h : e.Fits) {s : String} (hm : e.child? s = some member) :
    e.source.kind.child? s = some member.source := by
  rw [h.child?_eq, hm, Option.map_some]

/-- Entities and chains have the same addresses. -/
theorem Throughout.source_at?_eq {e : Entity} (h : e.Throughout Fits) (segments : List String) :
    e.source.at? segments = (e.at? segments).map (·.source) := by
  induction segments generalizing e with
  | nil => rfl
  | cons s rest ih =>
    rw [Chain.at?, (h [] e rfl).child?_eq, Entity.at?]
    cases hm : e.child? s with
    | none => rfl
    | some member => exact ih (h.child hm)

theorem Throughout.source_at? {e inner : Entity} (h : e.Throughout Fits) {segments : List String}
    (hinner : e.at? segments = some inner) : e.source.at? segments = some inner.source := by
  rw [h.source_at?_eq, hinner, Option.map_some]

theorem Throughout.of_children {P : Entity → Prop} {e : Entity} (h : P e)
    (hchild : ∀ s member, e.child? s = some member → member.Throughout P) : e.Throughout P := by
  intro segments inner hinner
  cases segments with
  | nil => exact Option.some.inj hinner ▸ h
  | cons s rest =>
    rw [Entity.at?, Option.bind_eq_some_iff] at hinner
    obtain ⟨member, hm, hinner⟩ := hinner
    exact hchild s member hm rest inner hinner

theorem Throughout.mono {P Q : Entity → Prop} {e : Entity} (h : e.Throughout P)
    (hPQ : ∀ e, P e → Q e) : e.Throughout Q :=
  fun segments inner hinner => hPQ inner (h segments inner hinner)

/-! ## Objects and lists -/

section

variable {own : Option String} {e : Entity} {fields : List (String × Chain)}

/-- An entity that fits an object runs its members by a schedule. -/
theorem Arranged.of_object (h : Arranged own e) (hfits : e.Fits)
    (hobject : e.source.kind = .object fields) :
    ∃ members schedule escaping, e.schedule? = some schedule ∧
      (∀ s, e.child? s = Table.get? members s) ∧ members.map (·.1) = fields.map (·.1) ∧
      schedule.Arranges own (members.map fun m => (m.1, m.2.references)) escaping := by
  obtain ⟨members, schedule, escaping, hbody, rfl⟩ := hfits.body.of_object hobject
  have hs : e.schedule? = some schedule := by rw [schedule?, hbody]
  obtain ⟨_, members', _, escaping', hbody', ha, -⟩ := h.of_schedule? hs
  obtain ⟨-, hhooks⟩ := Body.behaviour.inj (hbody.symm.trans hbody')
  obtain ⟨rfl, -, -, rfl⟩ := Hooks.object.inj hhooks
  exact ⟨members, schedule, escaping, hs, fun s => by rw [child?, hbody],
    (Table.names_map _ members).symm, ha⟩

/-- All items of a list have one entity. -/
theorem Arranged.exists_item {list : String} {array item : Chain} (h : Arranged own e)
    (hfits : e.Throughout Fits) (hobject : e.source.kind = .object fields)
    (harray : Table.get? fields list = some array) (hitems : array.kind = .array (some item)) :
    ∃ entity, (∀ i, e.at? [list, i] = some entity) ∧ entity.source = item ∧
      Arranged none entity := by
  have hchild := (hfits [] e rfl).child?_eq list
  rw [hobject] at hchild
  obtain ⟨a, ha, rfl⟩ := Option.map_eq_some_iff.1 (hchild.symm.trans harray)
  obtain ⟨entity, hbody, rfl⟩ := ((hfits.child ha) [] a rfl).body.of_items hitems
  obtain ⟨own', ha'⟩ := h.child ha
  refine ⟨entity, fun i => ?_, rfl, ha'.of_items hbody⟩
  rw [Entity.at?, ha, Option.bind_some, Entity.at?_singleton, child?, hbody]

end

end Entity

namespace Mapper

open Entity

/-- A body that fits its chain, as do all entities inside of it. -/
def Suits (source : Chain) (body : Body) : Prop :=
  FitsBody source body ∧ ∀ id resolver s member,
    Entity.child? (.mk id source resolver body) s = some member → member.Throughout Fits

theorem suits_leaf {source : Chain} {body : Body} (h : FitsBody source body)
    (hleaf : ∀ id resolver s, Entity.child? (.mk id source resolver body) s = none) :
    Suits source body :=
  ⟨h, fun id resolver s _ hm => absurd ((hleaf id resolver s).symm.trans hm) nofun⟩

theorem checkPresence_eq_ok {c : Chain} (h : c.checkPresence = .ok ()) :
    Chain.presenceConflict? c.props = none := by
  unfold Chain.checkPresence at h
  split at h
  · cases h
  · next hp => exact hp

mutual

theorem compileChain_fits : ∀ (c : Chain) (own : Option String) (n n' : Nat) (e : Entity),
    standard.compileChain c own n = .ok (e, n') → e.source = c ∧ e.Throughout Fits
  | .mk kind props pipeline registry, own, n, n', e, h => by
    obtain ⟨hpresence, resolver, k, body, -, hbody, rfl⟩ := compileChain_eq_ok.1 h
    obtain ⟨hfits, hchild⟩ := compileKind_suits kind _ own k n' body rfl hbody
    exact ⟨rfl, .of_children ⟨checkPresence_eq_ok hpresence, hfits⟩ (hchild n resolver)⟩

theorem compileKind_suits : ∀ (kind : Kind) (source : Chain) (own : Option String) (n n' : Nat)
    (body : Body), source.kind = kind → standard.compileKind kind source own n = .ok (body, n') →
    Suits source body
  | .reference path, source, own, n, n', body, hk, h
  | .custom name, source, own, n, n', body, hk, h => by
    obtain ⟨rfl, -⟩ := CompileM.pure_eq_ok.1 h
    refine suits_leaf ?_ fun _ _ _ => rfl
    unfold FitsBody
    rw [hk]
  | .any, source, own, n, n', body, hk, h
  | .string, source, own, n, n', body, hk, h
  | .number, source, own, n, n', body, hk, h
  | .boolean, source, own, n, n', body, hk, h
  | .array none, source, own, n, n', body, hk, h => by
    obtain ⟨rfl, -⟩ := CompileM.pure_eq_ok.1 h
    refine suits_leaf ?_ fun _ _ _ => rfl
    unfold FitsBody
    rw [hk]
    rfl
  | .date, source, own, n, n', body, hk, h => by
    obtain ⟨-, rfl⟩ := (compileDate_eq_ok rfl).1 h
    refine suits_leaf ?_ fun _ _ _ => rfl
    unfold FitsBody
    rw [hk]
  | .array (some items), source, own, n, n', body, hk, h => by
    obtain ⟨entity, hitems, rfl⟩ := (compileItems_eq_ok rfl).1 h
    obtain ⟨hsource, hall⟩ := compileChain_fits items none n n' entity hitems
    refine ⟨?_, fun _ _ _ _ hm => Option.some.inj hm ▸ hall⟩
    unfold FitsBody
    rw [hk]
    exact ⟨entity, rfl, hsource⟩
  | .object fields, source, own, n, n', body, hk, h => by
    obtain ⟨members, schedule, escaping, hmembers, -, rfl⟩ := (compileObject_eq_ok rfl).1 h
    obtain ⟨hsources, hall⟩ := compileMembers_fits fields n n' members hmembers
    refine ⟨?_, fun _ _ _ _ hm => hall _ (Table.mem_of_get? hm)⟩
    unfold FitsBody
    rw [hk]
    exact ⟨members, schedule, escaping, rfl, hsources⟩

theorem compileMembers_fits : ∀ (fields : List (String × Chain)) (n n' : Nat)
    (members : List (String × Entity)), standard.compileMembers fields n = .ok (members, n') →
    members.map (fun m => (m.1, m.2.source)) = fields ∧ ∀ m ∈ members, m.2.Throughout Fits
  | [], n, n', members, h => by
    obtain ⟨rfl, -⟩ := CompileM.pure_eq_ok.1 h
    exact ⟨rfl, List.forall_mem_nil _⟩
  | (name, field) :: rest, n, n', members, h => by
    obtain ⟨entity, k, others, hentity, hothers, rfl⟩ := compileMembers_cons_eq_ok.1 h
    obtain ⟨hsource, hall⟩ := compileChain_fits field (some name) n k entity hentity
    obtain ⟨hsources, hrest⟩ := compileMembers_fits rest k n' others hothers
    exact ⟨by rw [List.map_cons, hsource, hsources], List.forall_mem_cons.2 ⟨hall, hrest⟩⟩

end

theorem compile_fits {c : Chain} {e : Entity} (h : standard.compile c = .ok e) :
    e.source = c ∧ e.Throughout Fits := by
  obtain ⟨n, h⟩ := compile_eq_ok.1 h
  exact compileChain_fits c none 0 n e h

end Mapper

end Intake
