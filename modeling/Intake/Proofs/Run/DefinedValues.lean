import Intake.Proofs.Run.Confined
import Intake.Proofs.Run.Presence
import Intake.Proofs.Run.ValidValues
/-!
# Defined values

An entity that is no reference never loses a value: a tracker without issues that has a value when
the entity comes to it has one when the entity is done, whatever has failed on it or below it
(`defined_stays`).  A rule or a check that refuses a value leaves the one that it has seen.

Lists and objects take their value away before their items and members run, and put another in its
place when these are done.  In between only trackers below are worked on, so an object without
issues is without issues then, and is put together again.  `Retains` is what every stage of a
behaviour has in common, and it passes from the stages to the behaviour:

    Retains F → Retains G → Retains (andThen F G)
-/

namespace Intake

/-! ## What is refused -/

/-- The check of a kind: the key of the issue that it records, and the values that it accepts. -/
def Kind.check? : Kind → Option (String × (Value → Bool))
  | .string => some (TypeCheck.string.key, TypeCheck.string.accepts)
  | .number => some (TypeCheck.number.key, TypeCheck.number.accepts)
  | .boolean => some (TypeCheck.boolean.key, TypeCheck.boolean.accepts)
  | .date => some ("date/type", Run.isDate)
  | .array _ => some ("array/type", fun v => v.asList?.isSome)
  | .object _ => some ("object/type", fun v => v.asObject?.isSome)
  | _ => none

/-- What an argument stands for at a tracker. -/
def Operand.valueAt (t : TrackerTree) (id : TrackerId) : Operand → Option Value
  | .literal v => some v
  | .reference path => t.resolve id path

/-- What the format step of a pipeline makes of a value at a tracker, if it accepts it; without
such a step it is the value. -/
def Pipeline.read? (p : Pipeline) (t : TrackerTree) (id : TrackerId) (v : Value) : Option Value :=
  match p.format with
  | none => some v
  | some s =>
    let result := s.processor.run v (s.args.map (·.valueAt t id))
    if Run.issuesOf s.processor.key result = [] then some result.value else none

/-- At a tracker with the value `v`, a chain refuses the value `seen` with an issue: the presence
rule has seen the value as it was, and the check of the kind what the format step has left. -/
inductive Chain.Rejects (c : Chain) (t : TrackerTree) (id : TrackerId) (v : Value) :
    Value → Issue → Prop
  | forbidden (h : c.props.forbidden = true) : Rejects c t id v v (.of "generic/forbidden" [])
  | type {seen : Value} {key : String} {accepts : Value → Bool}
      (allowed : c.props.forbidden = false)
      (read : (Pipeline.ofSteps c.pipeline).read? t id v = some seen)
      (check : c.kind.check? = some (key, accepts)) (wrong : accepts seen = false) :
      Rejects c t id v seen (.of key [])

namespace Run

variable {id : TrackerId} {r : Run} {F G : Stage}

theorem operands_eq (args : List Operand) :
    ∀ r : Run, (r.operands id args).1 = args.map (·.valueAt r.tree id) := by
  induction args with
  | nil => exact fun _ => rfl
  | cons arg rest ih =>
    intro r
    cases arg with
    | literal v => exact congrArg (some v :: ·) (ih r)
    | reference path => exact congrArg (r.tree.resolve id path :: ·) (ih (r.lookUp id path).2)

/-! ## Stages that leave a value -/

/-- On a tracker without issues that has a value, the stage leaves a value. -/
def Retains (F : Stage) : Prop :=
  ∀ (id : TrackerId) (r : Run), r.hasIssues id = false → (r.value? id).isSome = true →
    ((F id r).value? id).isSome = true

theorem exists_of_value (h : (r.value? id).isSome = true) :
    ∃ k, r.tree.get? id = some k ∧ k.value.isSome = true := by
  obtain ⟨v, hv⟩ := Option.isSome_iff_exists.1 h
  obtain ⟨k, hk, hvalue⟩ := Option.bind_eq_some_iff.1 hv
  exact ⟨k, hk, Option.isSome_iff_exists.2 ⟨v, hvalue⟩⟩

namespace Retains

theorem of_applies {R : Change} (h : Applies F R)
    (hR : ∀ k l, k.value.isSome = true → R k l → l.value.isSome = true) : Retains F := by
  intro id r _ hv
  obtain ⟨k, hk, hkv⟩ := exists_of_value hv
  obtain ⟨l, hl, -, htree⟩ := h id r k hk
  have hget : (F id r).tree.get? id = some l := by
    rw [htree, TrackerTree.get?_update_self, hk, Option.map_some]
  rw [value?_of_get? hget]
  exact hR k l hkv hl

/-- The second stage runs only where there are no issues. -/
theorem andThen (hF : Retains F) (hG : Retains G) : Retains (andThen F G) := by
  intro id r hclean hv
  have hfirst := hF id r hclean hv
  cases hissues : (F id r).hasIssues id with
  | true =>
    rw [andThen_of_issues hissues]
    exact hfirst
  | false =>
    rw [andThen_of_clean hissues]
    exact hG id _ hissues hfirst

theorem pass : Retains Run.pass := fun _ _ _ hv => hv

/-- The value of a step is kept also when it fails. -/
theorem runStep (s : CompiledStep) : Retains (runStep s) := by
  refine of_applies (Applies.runStep s) fun k l _ hl => ?_
  obtain ⟨args, rfl⟩ := hl
  rfl

theorem runSteps {last : Stage} (hlast : Retains last) :
    ∀ steps : List CompiledStep, Retains (runSteps last steps)
  | [] => hlast
  | s :: rest => (runStep s).andThen (runSteps hlast rest)

theorem runPipeline (p : Pipeline) (hF : Retains F) (hG : Retains G) :
    Retains (runPipeline p F G) := by
  have hrest := hF.andThen (runSteps hG p.steps)
  unfold Run.runPipeline
  cases p.format with
  | none => exact hrest
  | some s => exact (runStep s).andThen hrest

end Retains

/-! ## Values that are put back -/

theorem value?_recordNames (key arg : String) (names : List String) :
    (r.recordNames id key arg names).value? id = r.value? id :=
  recordNames_keeps (P := fun r' => r'.value? id = r.value? id) (fun _ => value?_record _) rfl
    key arg names

/-- An object that is put together has a value. -/
theorem value?_assemble (hid : id < r.tree.size) (policy : UnknownKeys) (names : List String)
    (unknown : List (String × Value)) :
    ((assemble policy names unknown id r).value? id).isSome = true := by
  unfold assemble
  dsimp only
  rw [value?_recordNames, value?_recordNames, value?_setValue hid]
  rfl

/-- The items of a list are put in its place, whether they have failed or not. -/
theorem retains_inspectList {items : Entity}
    (ih : ∀ (c : TrackerId) (r : Run), c < r.tree.size →
      TrackerTree.Confined c r.tree (items.process c r).tree) :
    Retains (inspectList (some items.process)) := by
  intro id r _ hv
  obtain ⟨k, hk, -⟩ := exists_of_value hv
  have hid := TrackerTree.lt_size_of_get? hk
  have hsize := (confined_inspectList ih hid).size
  by_cases hlist : ∃ values, r.value? id = some (.list values)
  · obtain ⟨values, hvalues⟩ := hlist
    rw [inspectList_of_list hvalues] at hsize ⊢
    dsimp only at hsize ⊢
    generalize runItems items.process id 0 values (r.setValue id none) = ran at hsize ⊢
    have hlt : id < ran.2.2.tree.size := by
      refine Nat.lt_of_lt_of_le hid (hsize.trans (le_of_eq ?_))
      split
      · exact TrackerTree.size_update _ _
      · exact (TrackerTree.size_update _ _).trans (TrackerTree.size_update _ _)
    split
    · rw [value?_setValue hlt]
      rfl
    · rw [value?_record, value?_setValue hlt]
      rfl
  · rw [inspectList_refuses hlist, value?_record]
    exact hv

/-- Attaching members changes nothing of a tracker but its children. -/
theorem hasIssues_attachMembers (input : List (String × Value)) :
    ∀ (names : List String) (t : TrackerTree), id < t.size →
      (attachMembers id names input t).hasIssues id = t.hasIssues id
  | [], _, _ => rfl
  | name :: rest, t, hid => by
    obtain ⟨k, hk⟩ := TrackerTree.exists_get? hid
    have hattached : (t.attach id name (Value.lookup? name input)).2.hasIssues id =
        t.hasIssues id := by
      rw [TrackerTree.hasIssues, TrackerTree.get?_attach_parent hid, TrackerTree.hasIssues, hk]
      rfl
    have hlt : id < (t.attach id name (Value.lookup? name input)).2.size := by
      rw [TrackerTree.size_attach]
      exact Nat.lt_succ_of_lt hid
    exact (hasIssues_attachMembers input rest _ hlt).trans hattached

/-- When the members of an object without issues are done, it has none and is put together. -/
theorem retains_inspectObject {own : Option String} {members : List (String × Entity)}
    {schedule : Schedule String} {escaping : List Path}
    (ha : schedule.Arranges own (members.map fun m => (m.1, m.2.references)) escaping)
    (ih : ∀ m ∈ members, ∀ (c : TrackerId) (r : Run), c < r.tree.size →
      TrackerTree.Confined c r.tree (m.2.process c r).tree) (policy : UnknownKeys) :
    Retains (inspectObject (Entity.memberStages members) schedule policy) := by
  intro id r hclean hv
  by_cases hobject : ∃ input, r.value? id = some (.object input)
  · obtain ⟨input, hvalue⟩ := hobject
    rw [inspectObject_of_object hvalue]
    have hid : id < (r.setValue id none).tree.size := by
      obtain ⟨k, hk, -⟩ := exists_of_value hv
      exact (TrackerTree.lt_size_of_get? hk).trans_eq (TrackerTree.size_update _ _).symm
    have hprovided := provided_attachMembers input (members.map (·.1)) hid
    generalize hattached : (r.setValue id none).mapTree
      (attachMembers id (members.map (·.1)) input) = attached
    have htree : attachMembers id (members.map (·.1)) input (r.setValue id none).tree =
        attached.tree := congrArg Run.tree hattached
    rw [htree] at hprovided
    obtain ⟨hconfined, hsteady⟩ := confined_runSchedule ha ih hid hprovided
    have hissues : (runSchedule schedule (Entity.memberStages members) id attached).hasIssues id =
        false := by
      rw [Run.hasIssues, TrackerTree.hasIssues, hsteady, ← htree]
      refine (hasIssues_attachMembers input _ _ hid).trans ?_
      rw [← hclean]
      exact hasIssues_setValue none
    rw [andThen_of_clean hissues]
    exact value?_assemble (Nat.lt_of_lt_of_le hid hconfined.size) _ _ _
  · rw [inspectObject_refuses hobject, value?_record]
    exact hv

/-! ## Stages that refuse a value -/

variable {k : Tracker}

/-- What is recorded on a tracker without issues is its only issue, and nothing follows. -/
theorem andThen_refuses (hk : r.tree.get? id = some k) (hclean : k.issues = []) {issue : Issue}
    (hF : F id r = r.record id issue) :
    ∃ l, (andThen F G id r).tree.get? id = some l ∧ l.value = k.value ∧ l.issues = [issue] := by
  have hget : (r.record id issue).tree.get? id = some (k.record issue) := by
    show (r.tree.update id _).get? id = _
    rw [TrackerTree.get?_update_self, hk, Option.map_some]
  have hissues : (r.record id issue).hasIssues id = true := by
    rw [hasIssues_of_get? hget, Tracker.hasIssues_record]
  refine ⟨k.record issue, ?_, rfl, ?_⟩
  · rw [andThen_of_issues (hF ▸ hissues), hF]
    exact hget
  · show k.issues ++ [issue] = [issue]
    rw [hclean, List.nil_append]

theorem check_refuses {key : String} {accepts : Value → Bool} {seen : Value}
    (hseen : r.value? id = some seen) (hwrong : accepts seen = false) :
    check key accepts id r = r.record id (.of key []) := by
  rw [check, hseen, Option.any_some, hwrong, if_neg Bool.false_ne_true]

/-- What the format step has left is refused by the inspection, and no other step runs. -/
theorem runPipeline_refuses {p : Pipeline} (hk : r.tree.get? id = some k) (hclean : k.issues = [])
    {v seen : Value} (hv : k.value = some v) (hread : p.read? r.tree id v = some seen)
    {issue : Issue} (hF : ∀ r, r.value? id = some seen → F id r = r.record id issue) :
    ∃ l, (runPipeline p F G id r).tree.get? id = some l ∧ l.value = some seen ∧
      l.issues = [issue] := by
  unfold runPipeline
  unfold Pipeline.read? at hread
  cases hformat : p.format with
  | none =>
    rw [hformat] at hread
    obtain rfl : v = seen := Option.some.inj hread
    rw [← hv]
    exact andThen_refuses hk hclean (hF r ((value?_of_get? hk).trans hv))
  | some s =>
    rw [hformat] at hread
    obtain ⟨haccepted, hseen⟩ := Option.ite_none_right_eq_some.1 hread
    have hget := Applies.get?_runStep s hk
    rw [hv, operands_eq] at hget
    dsimp only at hget
    rw [Option.getD_some, haccepted, hclean, hseen, List.nil_append] at hget
    have hissues : (runStep s id r).hasIssues id = false := hasIssues_of_get? hget
    dsimp only
    rw [andThen_of_clean hissues]
    exact andThen_refuses hget rfl (hF _ (value?_of_get? hget))

end Run

namespace Entity

open Run

/-! ## Behaviours -/

theorem inspect_retains {own : Option String} {n : Nat} {source : Chain} {resolver : Option Entity}
    {pipeline : Pipeline} {hooks : Hooks}
    (h : Arranged own (.mk n source resolver (.behaviour pipeline hooks)))
    (hcustom : ∀ custom, hooks ≠ .custom custom) : Retains (inspect hooks) := by
  cases h with
  | single hr hb =>
    exact .of_applies (.inspect hb fun _ => ⟨none, false, none⟩) fun k l hv hl =>
      Change.inspects_isSome hv hl hcustom
  | array hr hi => exact retains_inspectList fun c r hc => process_confined hi hc
  | object hr hs hm =>
    exact retains_inspectObject hs (fun m hmem c r hc => process_confined (hm m hmem) hc) _

theorem behave_retains {own : Option String} {e : Entity} (h : Arranged own e)
    (hbody : FitsBody e.source e.body) : Retains (behave e.body) := by
  obtain ⟨n, source, resolver, body⟩ := e
  intro id r hclean hv
  cases body with
  | base => exact hv
  | reference path p => exact Retains.runPipeline p .pass .pass id (r.enter id) hclean hv
  | behaviour p hooks =>
    have hcustom : ∀ custom, hooks ≠ .custom custom := by
      rintro custom rfl
      exact FitsBody.not_custom hbody
    have hconvert : Retains (convert hooks) :=
      .of_applies (.convert hooks) fun k l hv hl => Change.converts_isSome hv hl hcustom
    exact Retains.runPipeline p (inspect_retains h hcustom) hconvert id (r.enter id) hclean hv

/-- A kind that has a check records its issue on every other value. -/
theorem inspect_refuses {source : Chain} {body : Body} (h : FitsBody source body) {key : String}
    {accepts : Value → Bool} (hcheck : source.kind.check? = some (key, accepts)) :
    ∃ hooks, body = .behaviour (.ofSteps source.pipeline) hooks ∧
      ∀ id r seen, r.value? id = some seen → accepts seen = false →
        inspect hooks id r = r.record id (.of key []) := by
  generalize hkind : source.kind = kind at hcheck
  cases h.fitted hkind with
  | any | reference _ | custom _ => cases hcheck
  | string | number | boolean | date =>
    cases hcheck
    exact ⟨_, rfl, fun _ _ _ => check_refuses⟩
  | list =>
    cases hcheck
    refine ⟨_, rfl, fun id r seen hseen hwrong => ?_⟩
    show inspectList none id r = _
    exact inspectList_refuses (Value.any_asList_eq_false.1 (hseen ▸ hwrong))
  | items entity =>
    cases hcheck
    refine ⟨_, rfl, fun id r seen hseen hwrong => ?_⟩
    show inspectList (some entity.process) id r = _
    exact inspectList_refuses (Value.any_asList_eq_false.1 (hseen ▸ hwrong))
  | object members schedule escaping =>
    cases hcheck
    exact ⟨_, rfl, fun _ _ _ hseen hwrong =>
      inspectObject_refuses (Value.any_asObject_eq_false.1 (hseen ▸ hwrong))⟩

/-- What is no reference begins with the value of its tracker. -/
theorem tracked_of_fits {e : Entity} (h : FitsBody e.source e.body)
    (hkind : ∀ path, e.source.kind ≠ .reference path) (id : TrackerId) (r : Run) :
    e.tracked id r = r.value? id := by
  have htarget : target? e.body = none := by
    obtain ⟨n, source, resolver, body⟩ := e
    show target? body = none
    have hbody : FitsBody source body := h
    replace hkind : ∀ path, source.kind ≠ .reference path := hkind
    generalize hk : source.kind = kind at hkind
    cases hbody.fitted hk with
    | reference path => exact absurd rfl (hkind path)
    | _ => rfl
  rw [tracked, htarget]

/-- A claim does not show in what a format step makes of a value. -/
theorem read?_claim (p : Pipeline) (t : TrackerTree) (id : TrackerId) (n : Nat) (v : Value) :
    p.read? (t.update id (·.claim n)) id v = p.read? t id v := by
  have hargs : ∀ arg : Operand, arg.valueAt (t.update id (·.claim n)) id = arg.valueAt t id := by
    intro arg
    cases arg with
    | literal v => rfl
    | reference path => exact resolve_claim t id id n path
  simp only [Pipeline.read?, hargs]

/-! ## The main result -/

/-- At every address of a compiled tree, for what is no reference, whatever the processors do and
whatever the tree of trackers is: a tracker without issues that has a value has one in the end.  If
the presence rule or the check of the kind refuses a value, then it is the value that was seen, and
the issue is the only one. -/
theorem defined_stays {c : Chain} {root e : Entity} (hc : Mapper.standard.compile c = .ok root)
    (he : e.Within root) (hkind : ∀ path, e.source.kind ≠ .reference path) {id : TrackerId}
    {r : Run} {k : Tracker} (hk : r.tree.get? id = some k) (hclean : k.issues = []) {v : Value}
    (hv : k.value = some v) :
    ∃ l, (e.process id r).tree.get? id = some l ∧ l.value.isSome = true ∧
      ∀ seen issue, e.source.Rejects r.tree id v seen issue →
        l.value = some seen ∧ l.issues = [issue] := by
  obtain ⟨hfits, own, harranged⟩ := he.arranged hc
  have htracked : e.tracked id r = some v := by
    rw [tracked_of_fits hfits.body hkind, value?_of_get? hk, hv]
  cases hforbidden : e.source.props.forbidden with
  | true =>
    have hputs := process_forbidden hk hclean htracked hforbidden
    refine ⟨_, hputs.get? hk, rfl, fun seen issue hrejects => ?_⟩
    cases hrejects with
    | forbidden _ => exact ⟨rfl, rfl⟩
    | type hallowed _ _ _ => exact absurd (hforbidden.symm.trans hallowed) nofun
  | false =>
    obtain ⟨r₀, hputs, hbehave⟩ := process_allowed hk hclean htracked hforbidden
    have hget := hputs.get? hk
    have hleft := behave_retains harranged hfits.body id r₀ (hasIssues_of_get? hget)
      (by rw [value?_of_get? hget]; rfl)
    rw [← hbehave] at hleft
    obtain ⟨l, hl, hvalue⟩ := exists_of_value hleft
    refine ⟨l, hl, hvalue, fun seen issue hrejects => ?_⟩
    cases hrejects with
    | forbidden h => exact absurd (hforbidden.symm.trans h) nofun
    | type _ hread hcheck hwrong =>
      obtain ⟨hooks, hbody, hinspect⟩ := inspect_refuses hfits.body hcheck
      have htree : r₀.tree = r.tree.update id (·.claim e.id) := by
        rw [hputs.tree]
        refine TrackerTree.update_eq hk ?_
        rw [← hv, ← hclean]
        rfl
      have hread' : (Pipeline.ofSteps e.source.pipeline).read? r₀.tree id v = some seen := by
        rw [htree, read?_claim, hread]
      obtain ⟨l', hl', hvalue', hissues'⟩ := runPipeline_refuses (r := r₀.enter id)
        (G := convert hooks) hget rfl rfl hread' fun r hr => hinspect id r seen hr hwrong
      rw [hbehave, hbody] at hl
      obtain rfl := Option.some.inj (hl.symm.trans hl')
      exact ⟨hvalue', hissues'⟩

/-- A format step that puts its argument in the place of the value. -/
def borrow : Processor := .format "borrow" fun v args => .pass ((args.value? 0).getD v)

/-- A truth value that is borrowed from the unit beside it. -/
def borrowing : Chain :=
  .mk .boolean {} [⟨borrow, [.reference ⟨["unit"]⟩], false⟩] Registry.empty

def lending : Chain :=
  .ofKind (.object [("flag", borrowing), ("unit", .ofKind .any Registry.empty)]) Registry.empty

/-- What they are compiled to. -/
def borrower : Entity :=
  .mk 1 borrowing none
    (.behaviour ⟨some ⟨borrow, [.reference ⟨["unit"]⟩]⟩, []⟩ (.check .boolean))

def lender : Entity :=
  .mk 0 lending none (.behaviour ⟨none, []⟩ (.object
    [("flag", borrower),
      ("unit", .mk 2 (.ofKind .any Registry.empty) none (.behaviour ⟨none, []⟩ .pass))]
    ⟨[("flag", some "flag"), ("unit", some "unit")], [("unit", "flag")],
      some ["unit", "flag"]⟩ .strip []))

theorem compile_lending : Mapper.standard.compile lending = .ok lender := by cbv

/-- A flag beside a unit that is a text. -/
def metric : Run :=
  { tree := (((TrackerTree.ofValue none).attach 0 "unit" (some (.str "m"))).2.attach 0
      "flag" (some (.bool true))).2 }

theorem defined_stays_metric :
    Mapper.standard.compile lending = .ok lender ∧ borrower.Within lender ∧
    ∃ l, (borrower.process 2 metric).tree.get? 2 = some l ∧ l.value = some (.str "m") ∧
      l.issues = [.of "boolean/type" []] := by
  have hwithin : borrower.Within lender := ⟨["flag"], borrower, rfl, .inl rfl⟩
  have hk : metric.tree.get? 2 =
      some { value := some (.bool true), parent := some 0, segment := some "flag" } := rfl
  have hread : (Pipeline.ofSteps borrowing.pipeline).read? metric.tree 2 (.bool true) =
      some (.str "m") := by cbv
  have hkind : ∀ path, borrower.source.kind ≠ .reference path := by
    intro path hpath
    cases hpath
  obtain ⟨l, hl, -, hrejects⟩ := defined_stays compile_lending hwithin hkind hk rfl rfl
  exact ⟨compile_lending, hwithin, l, hl, hrejects _ _ (.type rfl hread rfl rfl)⟩

end Entity

end Intake
