import Intake.Proofs.Schedule.Members
/-!
# Compilations that succeed

What the parts of a chain have to compile to so that it compiles, and what it compiles to then, one
equivalence for each function of the mapper.  An object, for one, compiles if its members do and can
be scheduled:

    m.compileKind (.object fields) source own n = .ok (body, n') ↔
      ∃ members schedule escaping, m.compileMembers fields n = .ok (members, n') ∧
        Schedule.ofMembers own (paths of members) = .ok (schedule, escaping) ∧ body = ...

Recursions over chains that compile go by these.
-/

namespace Intake

namespace Mapper

variable {m : Mapper} {source : Chain} {own : Option String} {n n' : Nat} {body : Body}

theorem behave_of_handles {tag : KindTag} (hm : m.handles tag = true) (hooks : Hooks) :
    m.behave source tag hooks = .behaviour (.ofSteps source.pipeline) hooks :=
  if_pos hm

/-- An entity takes the next number, before its resolver and what is inside of it. -/
theorem compileChain_eq_ok {kind : Kind} {props : Props} {pipeline : List Step}
    {registry : Registry} {e : Entity} :
    m.compileChain (.mk kind props pipeline registry) own n = .ok (e, n') ↔
      (Chain.mk kind props pipeline registry).checkPresence = .ok () ∧
      ∃ resolver k body, compileDefault props.default? (n + 1) = .ok (resolver, k) ∧
        m.compileKind kind (.mk kind props pipeline registry) own k = .ok (body, n') ∧
        e = .mk n (.mk kind props pipeline registry) resolver body := by
  simp only [compileChain, CompileM.bind_eq_ok]
  constructor
  · rintro ⟨_, _, hpresence, _, _, hid, resolver, k, hresolver, body, _, hbody, hout⟩
    obtain ⟨hchecked, rfl⟩ := CompileM.ofExcept_eq_ok.1 hpresence
    obtain ⟨rfl, rfl⟩ := Prod.ext_iff.1 (Except.ok.inj hid)
    obtain ⟨rfl, rfl⟩ := CompileM.pure_eq_ok.1 hout
    exact ⟨hchecked, resolver, k, body, hresolver, hbody, rfl⟩
  · rintro ⟨hpresence, resolver, k, body, hresolver, hbody, rfl⟩
    exact ⟨(), n, CompileM.ofExcept_eq_ok.2 ⟨hpresence, rfl⟩, n, n + 1, rfl, resolver, k, hresolver,
      body, n', hbody, CompileM.pure_eq_ok.2 ⟨rfl, rfl⟩⟩

theorem compileDate_eq_ok (hm : m.handles .date = true) :
    m.compileKind .date source own n = .ok (body, n') ↔
      (source.checkOutputFormat = .ok () ∧ n = n') ∧
        body = .behaviour (.ofSteps source.pipeline) (.date source.props.outputFormat) := by
  simp only [compileKind, if_pos hm, CompileM.bind_eq_ok, behave_of_handles hm]
  constructor
  · rintro ⟨_, _, hformat, hout⟩
    obtain ⟨hchecked, rfl⟩ := CompileM.ofExcept_eq_ok.1 hformat
    obtain ⟨rfl, rfl⟩ := CompileM.pure_eq_ok.1 hout
    exact ⟨⟨hchecked, rfl⟩, rfl⟩
  · rintro ⟨⟨hformat, rfl⟩, rfl⟩
    exact ⟨(), n, CompileM.ofExcept_eq_ok.2 ⟨hformat, rfl⟩, CompileM.pure_eq_ok.2 ⟨rfl, rfl⟩⟩

theorem compileItems_eq_ok (hm : m.handles .array = true) {items : Chain} :
    m.compileKind (.array (some items)) source own n = .ok (body, n') ↔
      ∃ entity, m.compileChain items none n = .ok (entity, n') ∧
        body = .behaviour (.ofSteps source.pipeline) (.array (some entity)) := by
  simp only [compileKind, if_pos hm, CompileM.bind_eq_ok, behave_of_handles hm]
  constructor
  · rintro ⟨entity, _, hitems, hout⟩
    obtain ⟨rfl, rfl⟩ := CompileM.pure_eq_ok.1 hout
    exact ⟨entity, hitems, rfl⟩
  · rintro ⟨entity, hitems, rfl⟩
    exact ⟨entity, n', hitems, CompileM.pure_eq_ok.2 ⟨rfl, rfl⟩⟩

theorem compileObject_eq_ok (hm : m.handles .object = true) {fields : List (String × Chain)} :
    m.compileKind (.object fields) source own n = .ok (body, n') ↔
      ∃ members schedule escaping, m.compileMembers fields n = .ok (members, n') ∧
        Schedule.ofMembers own (members.map fun m => (m.1, m.2.references)) =
          .ok (schedule, escaping) ∧
        body = .behaviour (.ofSteps source.pipeline)
          (.object members schedule source.props.unknownKeys escaping) := by
  simp only [compileKind, if_pos hm, CompileM.bind_eq_ok, behave_of_handles hm]
  constructor
  · rintro ⟨members, _, hmembers, ⟨schedule, escaping⟩, _, hschedule, hout⟩
    obtain ⟨hmade, rfl⟩ := CompileM.ofExcept_eq_ok.1 hschedule
    obtain ⟨rfl, rfl⟩ := CompileM.pure_eq_ok.1 hout
    exact ⟨members, schedule, escaping, hmembers, Schedule.lift_eq_ok.1 hmade, rfl⟩
  · rintro ⟨members, schedule, escaping, hmembers, hschedule, rfl⟩
    exact ⟨members, n', hmembers, (schedule, escaping), n',
      CompileM.ofExcept_eq_ok.2 ⟨Schedule.lift_eq_ok.2 hschedule, rfl⟩,
      CompileM.pure_eq_ok.2 ⟨rfl, rfl⟩⟩

theorem compileMembers_cons_eq_ok {name : String} {field : Chain} {rest : List (String × Chain)}
    {members : List (String × Entity)} :
    m.compileMembers ((name, field) :: rest) n = .ok (members, n') ↔
      ∃ entity k others, m.compileChain field (some name) n = .ok (entity, k) ∧
        m.compileMembers rest k = .ok (others, n') ∧ members = (name, entity) :: others := by
  simp only [compileMembers, CompileM.bind_eq_ok]
  constructor
  · rintro ⟨entity, k, hentity, others, _, hothers, hout⟩
    obtain ⟨rfl, rfl⟩ := CompileM.pure_eq_ok.1 hout
    exact ⟨entity, k, others, hentity, hothers, rfl⟩
  · rintro ⟨entity, k, others, hentity, hothers, rfl⟩
    exact ⟨entity, k, hentity, others, n', hothers, CompileM.pure_eq_ok.2 ⟨rfl, rfl⟩⟩

end Mapper

end Intake
