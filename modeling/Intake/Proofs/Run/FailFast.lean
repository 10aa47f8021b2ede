import Intake.Proofs.Chain.Placement
import Intake.Proofs.Entity.Shape
import Intake.Proofs.Run.Begun
import Intake.Proofs.Run.Presence
/-!
# The first failure ends a pipeline

The behaviour of an entity goes through phases: the format step, what the kind does with the value,
the other steps, and the conversion of the result.  Some phase is the last one that runs.  It comes
upon a tracker without issues, and either it is the conversion and there are none in the end, or
the issues and the value of the tracker are what it has left there (`fail_fast`):

    e.process id r = (phase.run e.body id (e.after n id r₀)).leave

Nothing of a later phase is in the run, so none of the later processors has been called for the
tracker.  The phases of a list and of an object run entities of their own, on other trackers.
-/

namespace Intake

/-- A part of a behaviour. -/
inductive Phase where
  | step (s : CompiledStep)
  | inspect
  | convert

namespace Phase

/-- The processor that a phase calls. -/
def key? : Phase → Option String
  | .step s => some s.processor.key
  | _ => none

/-- What a phase does where the body of the entity is the given one. -/
def run : Body → Phase → Stage
  | _, .step s => Run.runStep s
  | .behaviour _ hooks, .inspect => Entity.inspect hooks
  | .behaviour _ hooks, .convert => Entity.convert hooks
  | _, _ => Run.pass

/-- Some phases, one after the other. -/
def through (body : Body) (phases : List Phase) : Stage := fun id r =>
  phases.foldl (fun r phase => phase.run body id r) r

theorem through_concat (body : Body) (phases : List Phase) (last : Phase) (id : TrackerId)
    (r : Run) :
    through body (phases ++ [last]) id r = last.run body id (through body phases id r) := by
  rw [through, List.foldl_append]
  rfl

end Phase

/-- The phases that precede the conversion. -/
def Pipeline.phases (p : Pipeline) : List Phase :=
  p.format.toList.map .step ++ .inspect :: p.steps.map .step

/-- The phases of the behaviour of a chain. -/
def Chain.phases (c : Chain) : List Phase := (Pipeline.ofSteps c.pipeline).phases ++ [.convert]

/-- The run when some phases of the behaviour of an entity are over. -/
def Entity.after (e : Entity) (n : Nat) : Stage := fun id r =>
  Phase.through e.body (e.source.phases.take n) id (r.enter id)

/-- The processor that has been called for a tracker. -/
def Event.calledOn (x : TrackerId) : Event → Option String
  | .called id key _ _ => if id = x then some key else none
  | _ => none

/-- The processors that have been called for a tracker, the latest first. -/
def Run.callsOn (r : Run) (x : TrackerId) : List String := r.trace.filterMap (·.calledOn x)

namespace Run

variable {body : Body} {id : TrackerId} {r r' : Run}

/-! ## Stages that may be the last -/

/-- Of phases that run as long as there are no issues, one is the last. -/
theorem exists_last (body : Body) (phases : List Phase) (last : Phase)
    (hr : r.hasIssues id = false) :
    ∃ n phase, (phases ++ [last])[n]? = some phase ∧
      (∀ m ≤ n, (Phase.through body ((phases ++ [last]).take m) id r).hasIssues id = false) ∧
      (phases.map (Phase.run body)).foldr andThen (last.run body) id r =
        phase.run body id (Phase.through body ((phases ++ [last]).take n) id r) ∧
      (n = phases.length ∧ phase = last ∨
        ((phases.map (Phase.run body)).foldr andThen (last.run body) id r).hasIssues id = true) := by
  induction phases generalizing r with
  | nil =>
    refine ⟨0, last, rfl, fun m hm => ?_, rfl, .inl ⟨rfl, rfl⟩⟩
    obtain rfl : m = 0 := by omega
    exact hr
  | cons first rest ih =>
    rw [List.map_cons, List.foldr_cons]
    cases hissues : (first.run body id r).hasIssues id with
    | true =>
      rw [andThen_of_issues hissues]
      refine ⟨0, first, rfl, fun m hm => ?_, rfl, .inr hissues⟩
      obtain rfl : m = 0 := by omega
      exact hr
    | false =>
      obtain ⟨n, phase, hphase, hclean, heq, hlast⟩ := ih hissues
      rw [andThen_of_clean hissues]
      refine ⟨n + 1, phase, hphase, fun m hm => ?_, heq, ?_⟩
      · cases m with
        | zero => exact hr
        | succ m => exact hclean m (by omega)
      · exact hlast.imp_left fun h => ⟨congrArg (· + 1) h.1, h.2⟩

/-- The conversion records no issue. -/
theorem hasIssues_convert (body : Body) :
    (Phase.convert.run body id r).hasIssues id = r.hasIssues id := by
  cases body with
  | behaviour pipeline hooks =>
    cases hooks with
    | date format =>
      cases format with
      | none => rfl
      | some pattern =>
        show (writeDate (some pattern) id r).hasIssues id = _
        rw [writeDate_eq]
        dsimp only
        cases (((r.value? id).bind Value.asString?).bind Date.readIso).bind (·.write pattern) with
        | none => rfl
        | some text => exact hasIssues_setValue _
    | custom hooks => exact hasIssues_setValue _
    | _ => rfl
  | _ => rfl

theorem size_runStep (s : CompiledStep) (id : TrackerId) (r : Run) :
    (runStep s id r).tree.size = r.tree.size := by
  have hlocal : Local (fun _ => False) (s.args.filterMap (·.path?)) (runStep s) :=
    .runStep s fun _ hpath => hpath
  have hkeeps : Keeps (s.args.filterMap (·.path?)) id fun r' => r'.tree.size = r.tree.size := by
    refine ⟨fun _ h => ?_, fun _ _ h => h, fun htree _ h => ?_, fun _ h => h⟩
    · exact (TrackerTree.size_update _ _).trans h
    · rw [htree, h]
  exact hlocal.keeps_own hkeeps rfl

/-- What a step leaves on its tracker. -/
theorem get?_runStep (s : CompiledStep) (hissues : (runStep s id r).hasIssues id = true)
    (hclean : r.hasIssues id = false) :
    let result := s.processor.run ((r.value? id).getD .null) (r.operands id s.args).1
    ∃ l, (runStep s id r).tree.get? id = some l ∧ l.value = some result.value ∧
      l.issues = issuesOf s.processor.key result := by
  -- a step makes no tracker, so one with issues has been there before
  have hid : id < r.tree.size := by
    by_contra hn
    have hnone : (runStep s id r).tree.get? id = none := by
      rw [TrackerTree.get?_eq_none_iff, size_runStep]
      exact Nat.le_of_not_lt hn
    rw [hasIssues, TrackerTree.hasIssues, hnone] at hissues
    cases hissues
  obtain ⟨k, hk⟩ := TrackerTree.exists_get? hid
  have hnone : k.issues = [] := by
    rw [hasIssues_of_get? hk] at hclean
    simpa [Tracker.hasIssues] using hclean
  rw [value?_of_get? hk]
  refine ⟨_, Applies.get?_runStep s hk, rfl, ?_⟩
  rw [hnone, List.nil_append]

/-! ## Calls -/

theorem callsOn_of_trace (h : r'.trace = r.trace) (x : TrackerId) : r'.callsOn x = r.callsOn x := by
  rw [callsOn, callsOn, h]

theorem trace_records (issues : List Issue) (r : Run) :
    (issues.foldl (fun r issue => r.record id issue) r).trace = r.trace := by
  induction issues generalizing r with
  | nil => rfl
  | cons issue rest ih => exact ih (r.record id issue)

theorem callsOn_operands (args : List Operand) (r : Run) (x : TrackerId) :
    (r.operands id args).2.callsOn x = r.callsOn x := by
  induction args generalizing r with
  | nil => rfl
  | cons arg rest ih =>
    cases arg with
    | literal v => exact ih r
    | reference path => exact ih (r.lookUp id path).2

/-- A step calls its processor. -/
theorem callsOn_runStep (s : CompiledStep) (r : Run) :
    (runStep s id r).callsOn id = s.processor.key :: r.callsOn id := by
  unfold runStep
  dsimp only
  rw [callsOn, trace_records]
  show List.filterMap _ (_ :: (r.operands id s.args).2.trace) = _
  rw [List.filterMap_cons]
  simp only [Event.calledOn, if_pos]
  exact congrArg _ (callsOn_operands s.args r id)

theorem Event.calledOn_of_ne {event : Event} {x : TrackerId} (h : event.tracker ≠ x) :
    event.calledOn x = none := by
  cases event with
  | called id key value args => exact if_neg h
  | _ => rfl

/-- Work at a tracker, in which these processors have been called for it. -/
structure Works (id : TrackerId) (keys : List String) (r r' : Run) : Prop where
  advances : Advances id r r'
  calls : r'.callsOn id = keys ++ r.callsOn id

namespace Works

theorem refl (hl : r.tree.Linked) (id : TrackerId) : Works id [] r r := ⟨.refl hl id, rfl⟩

theorem trans {keys keys' : List String} {r'' : Run} (h : Works id keys r r')
    (h' : Works id keys' r' r'') : Works id (keys' ++ keys) r r'' :=
  ⟨h.advances.trans h'.advances (.inl rfl), by rw [h'.calls, h.calls, List.append_assoc]⟩

/-- Work that leaves the trace as it is calls nothing. -/
theorem silent {keys : List String} {r'' : Run} (h : Works id keys r r')
    (hadvances : Advances id r' r'') (htrace : r''.trace = r'.trace) : Works id keys r r'' :=
  ⟨h.advances.trans hadvances (.inl rfl), (callsOn_of_trace htrace id).trans h.calls⟩

theorem touch (h : Works id [] r r') {f : Tracker → Tracker} (hf : Tracker.OnContent f) :
    Works id [] r (r'.mapTree (·.update id f)) :=
  h.silent (.touch h.advances.grows.linked id hf) rfl

/-- An entity that works on a new tracker calls no processor for this one. -/
theorem inside (h : Works id [] r r') {own : Option String} {e : Entity} {c : TrackerId}
    (he : Entity.Arranged own e) (hid : id < r.tree.size) (hold : r.tree.size ≤ c)
    (hc : c < r'.tree.size) : Works id [] r (e.process c r') := by
  have hinner := Entity.process_advances he h.advances.grows.linked hc
  have hne : id ≠ c := Nat.ne_of_lt (Nat.lt_of_lt_of_le hid hold)
  refine ⟨h.advances.trans hinner (.inr hold), ?_⟩
  rw [← h.calls]
  exact hinner.filterMap_trace (h.advances.lt hid) hne fun _ => Event.calledOn_of_ne

end Works

/-! ## What each phase calls -/

theorem trace_inspect {pipeline : Pipeline} {hooks : Hooks}
    (h : Entity.Single (.behaviour pipeline hooks)) (r : Run) :
    (Entity.inspect hooks id r).trace = r.trace := by
  have hcheck : ∀ (b : Bool) (issue : Issue),
      (if b then r else r.record id issue).trace = r.trace := by
    intro b issue
    cases b <;> rfl
  cases hooks with
  | pass => rfl
  | check type => exact hcheck _ _
  | date format => exact hcheck _ _
  | array items =>
    cases items with
    | none =>
      show (inspectList none id r).trace = r.trace
      rw [inspectList_none_eq]
      exact hcheck _ _
    | some items => exact h.elim
  | object members schedule policy escaping => exact h.elim
  | custom hooks => exact trace_records _ r

theorem trace_convert (hooks : Hooks) (r : Run) :
    (Entity.convert hooks id r).trace = r.trace := by
  cases hooks with
  | date format =>
    cases format with
    | none => rfl
    | some pattern =>
      show (writeDate (some pattern) id r).trace = r.trace
      rw [writeDate_eq]
      dsimp only
      cases (((r.value? id).bind Value.asString?).bind Date.readIso).bind (·.write pattern) <;> rfl
  | _ => rfl

/-- The kind calls no processor for the tracker that it inspects. -/
theorem inspect_works {own : Option String} {n : Nat} {source : Chain} {resolver : Option Entity}
    {pipeline : Pipeline} {hooks : Hooks}
    (h : Entity.Arranged own (.mk n source resolver (.behaviour pipeline hooks)))
    (hl : r.tree.Linked) (hid : id < r.tree.size) : Works id [] r (Entity.inspect hooks id r) := by
  have touch : ∀ f r', Tracker.OnContent f → Works id [] r r' →
      Works id [] r (r'.mapTree (·.update id f)) := fun f r' hf hr' => hr'.touch hf
  cases h with
  | single hr hb =>
    refine ⟨?_, callsOn_of_trace (trace_inspect hb r) id⟩
    exact Entity.keeps_of_single hb ⟨pipeline, hooks, rfl, rfl⟩ (Advances.keeps [] id r)
      (.refl hl id)
  | @array _ _ _ _ _ items hr hi =>
    refine inspectList_keeps touch (fun _ _ i v r' _ hr' => ?_) (.refl hl id)
    have hattached : Works id [] r
        { r' with tree := (r'.tree.attach id (toString i) (some v)).2 } :=
      hr'.silent (.of_grows (.attach hr'.advances.grows.linked (hr'.advances.lt hid) _ _) rfl) rfl
    exact hattached.inside hi hid hr'.advances.grows.size (by simp)
  | @object _ _ _ _ _ members schedule policy escaping hr hs hm =>
    refine inspectObject_keeps touch
      (fun r' hr' => ⟨hr'.advances.grows.linked, hr'.advances.lt hid⟩) ?_ (.refl hl id)
    intro input _ r' r₁ hr' hattached htrace
    have hsize := hr'.advances.grows.size
    have hstart : Works id [] r r₁ :=
      hr'.silent (.of_grows hattached.grows htrace) htrace
    -- the members run on the children that have just been attached, which are new
    obtain ⟨_, -, -, hworks⟩ := runSchedule_ongoing (Q := fun _ r'' => Works id [] r r'') hs
      hattached hsize hstart.advances
      (fun m hm' {c r} hl hc => Entity.process_advances (hm m hm') hl hc)
      (fun {done name e c r''} _ _ he hc hongoing hr'' => by
        obtain ⟨d, hd, hnew, -⟩ := hattached.child name (Table.mem_names_of_get? he)
        obtain rfl := Option.some.inj (hc.symm.trans hd)
        have hc' := (hongoing.child?_eq name).trans hc
        exact hr''.inside (hm _ (Table.mem_of_get? he)) hid (Nat.le_trans hsize hnew)
          (hr''.advances.grows.linked.child_lt_size hc'))
      hstart
    exact hworks

/-- A step calls its processor, and no other phase calls one. -/
theorem phase_works {own : Option String} {e : Entity} (h : Entity.Arranged own e) (phase : Phase)
    (hl : r.tree.Linked) (hid : id < r.tree.size) :
    Works id phase.key?.toList r (phase.run e.body id r) := by
  obtain ⟨n, source, resolver, body⟩ := e
  cases phase with
  | step s =>
    have hlocal : Local (fun _ => False) (s.args.filterMap (·.path?)) (runStep s) :=
      .runStep s fun _ hpath => hpath
    exact ⟨hlocal.keeps_own (Advances.keeps _ id r) (.refl hl id), callsOn_runStep s r⟩
  | inspect =>
    cases body with
    | behaviour pipeline hooks => exact inspect_works h hl hid
    | _ => exact .refl hl id
  | convert =>
    cases body with
    | behaviour pipeline hooks =>
      have hlocal : Local (fun _ => False) [] (Entity.convert hooks) := Entity.local_convert hooks
      exact ⟨hlocal.keeps_own (Advances.keeps _ id r) (.refl hl id),
        callsOn_of_trace (trace_convert hooks r) id⟩
    | _ => exact .refl hl id

/-- The processors of some phases are called in their order. -/
theorem through_works {own : Option String} {e : Entity} (h : Entity.Arranged own e)
    (phases : List Phase) (hl : r.tree.Linked) (hid : id < r.tree.size) :
    Works id (phases.filterMap (·.key?)).reverse r (Phase.through e.body phases id r) := by
  induction phases generalizing r with
  | nil => exact .refl hl id
  | cons first rest ih =>
    have hfirst := phase_works h first hl hid
    have hrest := ih hfirst.advances.grows.linked (hfirst.advances.lt hid)
    have hboth : Works id _ r (Phase.through e.body (first :: rest) id r) := hfirst.trans hrest
    rw [List.filterMap_cons]
    cases hkey : first.key? with
    | none => simpa [hkey] using hboth
    | some key => simpa [hkey] using hboth

end Run

namespace Entity

open Run

/-! ## Behaviours -/

/-- The behaviour of a kind that the standard mapper handles goes through the phases of the
chain. -/
theorem behave_phases {source : Chain} {body : Body} (h : FitsBody source body)
    (hkind : ∀ name, source.kind ≠ .custom name) (id : TrackerId) (r : Run) :
    behave body id r =
      (((Pipeline.ofSteps source.pipeline).phases.map (Phase.run body)).foldr andThen
        (Phase.convert.run body) id (r.enter id)).leave := by
  have hphases : ∀ p : Pipeline, p.phases.map (Phase.run body) =
      p.format.toList.map runStep ++ Phase.inspect.run body :: p.steps.map runStep := by
    intro p
    have hstep : (Phase.run body) ∘ Phase.step = runStep := by
      cases body <;> rfl
    rw [Pipeline.phases, List.map_append, List.map_cons, List.map_map, List.map_map, hstep]
  rw [hphases, ← runPipeline_eq]
  cases body with
  | base =>
    generalize hk : source.kind = kind at hkind
    cases h.fitted hk with
    | custom name => exact absurd rfl (hkind name)
  | reference path pipeline =>
    rw [← h.pipeline_eq rfl]
    rfl
  | behaviour pipeline hooks =>
    rw [← h.pipeline_eq rfl]
    rfl

theorem Puts.callsOn_eq {e : Entity} {id : TrackerId} {value : Option Value}
    {issues : List Issue} {r r' : Run} (h : e.Puts id value issues r r') :
    r'.callsOn id = r.callsOn id := by
  obtain ⟨new, hnew, hquiet⟩ := h.trace
  have hnone : new.filterMap (·.calledOn id) = [] := by
    refine List.filterMap_eq_nil_iff.2 fun event hevent => ?_
    have hcall := hquiet event hevent
    cases event with
    | called id key value args => cases hcall
    | _ => rfl
  rw [callsOn, hnew, List.filterMap_append, hnone]
  rfl

theorem Puts.linked {e : Entity} {id : TrackerId} {value : Option Value} {issues : List Issue}
    {r r' : Run} (h : e.Puts id value issues r r') (hl : r.tree.Linked) : r'.tree.Linked := by
  have hlinks : Tracker.KeepsLinks fun k => { k.claim e.id with value, issues } :=
    fun _ => ⟨rfl, rfl, rfl⟩
  rw [h.tree]
  exact (TrackerTree.Grows.update_of_links hl id hlinks).linked

/-! ## The main result -/

/-- Whatever its processors do: where an entity of a compiled tree, of any kind but a custom one,
runs its behaviour on a tracker, one of the phases is the last.  It comes upon a tracker that has
no issues, as have all phases before it.  Either it is the conversion, and there are no issues in
the end; or what is on the tracker in the end is what this phase has left there, and if it is a
step, that is the value of its result, with its issues or, if it has failed without any, with the
one that names its processor.  The processors that have been called for the tracker are those of
the phases up to this one. -/
theorem fail_fast {c : Chain} {root e : Entity} (hc : Mapper.standard.compile c = .ok root)
    (he : e.Within root) (hkind : ∀ name, e.source.kind ≠ .custom name) {id : TrackerId} {r : Run}
    {k : Tracker} (hk : r.tree.get? id = some k) (hclean : k.issues = []) {v : Value}
    (hv : e.tracked id r = some v) (hallowed : e.source.props.forbidden = false) :
    ∃ r₀ n phase, e.Puts id (some v) [] r r₀ ∧ e.source.phases[n]? = some phase ∧
      (∀ m ≤ n, (e.after m id r₀).hasIssues id = false) ∧
      e.process id r = (phase.run e.body id (e.after n id r₀)).leave ∧
      (n + 1 = e.source.phases.length ∧ (e.process id r).hasIssues id = false ∨
        phase ≠ .convert ∧ (e.process id r).hasIssues id = true ∧ ∀ s, phase = .step s →
          let result := s.processor.run (((e.after n id r₀).value? id).getD .null)
            ((e.after n id r₀).operands id s.args).1
          ∃ l, (e.process id r).tree.get? id = some l ∧ l.value = some result.value ∧
            l.issues = issuesOf s.processor.key result) ∧
      (r.tree.Linked → (e.process id r).callsOn id =
        ((e.source.phases.take (n + 1)).filterMap (·.key?)).reverse ++ r.callsOn id) := by
  obtain ⟨hfits, own, harranged⟩ := he.arranged hc
  obtain ⟨r₀, hputs, hbehave⟩ := process_allowed hk hclean hv hallowed
  have hentered : (r₀.enter id).hasIssues id = false := hasIssues_of_get? (hputs.get? hk)
  obtain ⟨n, phase, hphase, hbefore, hlast, hend⟩ :=
    exists_last e.body (Pipeline.ofSteps e.source.pipeline).phases .convert hentered
  have hprocess : e.process id r = (phase.run e.body id (e.after n id r₀)).leave := by
    rw [hbehave, behave_phases hfits.body hkind, hlast]
    rfl
  refine ⟨r₀, n, phase, hputs, hphase, hbefore, hprocess, ?_, fun hl => ?_⟩
  · rw [hprocess]
    cases hissues : (phase.run e.body id (e.after n id r₀)).hasIssues id with
    | false =>
      rcases hend with ⟨rfl, rfl⟩ | hdirty
      · exact .inl ⟨by simp [Chain.phases], hissues⟩
      · rw [hlast] at hdirty
        exact absurd (hissues.symm.trans hdirty) Bool.false_ne_true
    | true =>
      have hfound := hbefore n (Nat.le_refl n)
      refine .inr ⟨?_, hissues, ?_⟩
      · rintro rfl
        rw [hasIssues_convert] at hissues
        exact Bool.false_ne_true (hfound.symm.trans hissues)
      · rintro s rfl
        exact get?_runStep s hissues hfound
  · have hid : id < (r₀.enter id).tree.size := TrackerTree.lt_size_of_get? (hputs.get? hk)
    have hworks := through_works harranged (e.source.phases.take (n + 1))
      (show (r₀.enter id).tree.Linked from hputs.linked hl) hid
    have hrun : Phase.through e.body (e.source.phases.take (n + 1)) id (r₀.enter id) =
        phase.run e.body id (e.after n id r₀) := by
      rw [List.take_add_one, show e.source.phases[n]? = some phase from hphase]
      exact Phase.through_concat _ _ _ _ _
    rw [hprocess, ← hputs.callsOn_eq]
    rw [hrun] at hworks
    exact hworks.calls

/-- A processor that fails without saying why, and one that only looks. -/
def refuse : Processor := .step "refuse" fun v _ => { value := v, fail := true }

def peep : Processor := .step "peep" fun v _ => .pass v

/-- Any value, refused and then looked at. -/
def refused : Chain := .mk .any {} [⟨refuse, [], false⟩, ⟨peep, [], false⟩] Registry.empty

/-- What it compiles to. -/
def refuser : Entity :=
  .mk 0 refused none (.behaviour ⟨none, [⟨refuse, []⟩, ⟨peep, []⟩]⟩ .pass)

theorem fail_fast_refuser :
    Mapper.standard.compile refused = .ok refuser ∧
    (refuser.process 0 (.ofValue (some .null))).hasIssues 0 = true ∧
    ∃ n, refused.phases[n]? ≠ some .convert ∧
      (refuser.process 0 (.ofValue (some .null))).callsOn 0 =
        ((refused.phases.take (n + 1)).filterMap (·.key?)).reverse := by
  have hcompiled : Mapper.standard.compile refused = .ok refuser := rfl
  have hwithin : refuser.Within refuser := ⟨[], refuser, rfl, .inl rfl⟩
  have hissues : (refuser.process 0 (.ofValue (some .null))).hasIssues 0 = true := rfl
  have hroot : (ofValue (some .null)).tree.get? 0 = some { value := some .null } := rfl
  have hvalue : refuser.tracked 0 (ofValue (some .null)) = some .null := rfl
  obtain ⟨r₀, n, phase, -, hphase, -, -, hend, hcalls⟩ :=
    fail_fast hcompiled hwithin nofun hroot rfl hvalue rfl
  have hcalls := (hcalls (TrackerTree.linked_ofValue (some .null))).trans (List.append_nil _)
  refine ⟨hcompiled, hissues, n, ?_, hcalls⟩
  rcases hend with ⟨-, hclean⟩ | ⟨hne, -⟩
  · exact absurd (hissues.symm.trans hclean) (by decide)
  · exact fun h => hne (Option.some.inj (hphase.symm.trans h))

end Entity

end Intake
