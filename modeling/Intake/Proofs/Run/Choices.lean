import Intake.Chain.Builder
import Intake.Proofs.Run.HeldValues
import Intake.Proofs.Run.ValidValues
import Intake.Proofs.Run.Waiting
/-!
# Choices from a sibling's list

A member of an object may be checked against the list that another member has.  It runs after that
member, so the list is the processed one, whichever of the two is declared first; and in a valid
run the value is in the list exactly if the list is not empty (`chosen_values`):

    isValid → lookup? n output = some v → lookup? s output = some (.list values) →
      (values.contains v ↔ values ≠ [])

A choice of nothing passes everything, so the empty list restricts nothing (`empty_choice`).
-/

namespace Intake

namespace Processor

/-- A choice from one list. -/
theorem oneOf_list {v : Value} {values : List Value} :
    Run.issuesOf "one-of" (oneOf v [some (.list values)]) = [] ↔
      values = [] ∨ values.contains v = true := by
  have hallowed : allowed [some (.list values)] = values := rfl
  have hpasses : (values.isEmpty || values.contains v) = true ↔
      values = [] ∨ values.contains v = true := by
    rw [Bool.or_eq_true, List.isEmpty_iff]
  rw [oneOf, hallowed, ← hpasses]
  split
  · next h => exact iff_of_true rfl h
  · next h => exact iff_of_false (List.cons_ne_nil _ _) h

end Processor

namespace Run

open Entity TrackerTree

/-! ## One step on any value -/

/-- A kind without a type of its own, with one step that looks up a path. -/
theorem process_single {e : Entity} {s : CompiledStep} {path : Path} {id : TrackerId} {r : Run}
    {k : Tracker} {v : Value} (hbody : e.body = .behaviour ⟨none, [s]⟩ .pass)
    (hargs : s.args = [.reference path]) (hk : r.tree.get? id = some k) (hclean : k.issues = [])
    (hv : k.value = some v) (hallowed : e.source.props.forbidden = false) :
    ∃ l, (e.process id r).tree.get? id = some l ∧
      l.value = some (s.processor.run v [r.tree.resolve id path]).value ∧
      l.issues = issuesOf s.processor.key (s.processor.run v [r.tree.resolve id path]) := by
  have htracked : e.tracked id r = some v := by
    rw [tracked, hbody]
    exact (value?_of_get? hk).trans hv
  obtain ⟨r₀, hputs, hprocess⟩ := process_allowed hk hclean htracked hallowed
  have hk₀ := hputs.get? hk
  -- a claim does not show in what is looked up
  have hresolve : r₀.tree.resolve id path = r.tree.resolve id path := by
    have htree : r₀.tree = r.tree.update id (·.claim e.id) := by
      rw [hputs.tree]
      refine TrackerTree.update_eq hk ?_
      rw [← hv, ← hclean]
      rfl
    rw [htree, resolve_claim]
  have hissues : (r₀.enter id).hasIssues id = false := hasIssues_of_get? hk₀
  have hrun : (e.process id r).tree = (runStep s id (r₀.enter id)).tree := by
    rw [hprocess, hbody]
    show (andThen pass (runSteps pass [s]) id (r₀.enter id)).tree = _
    rw [andThen, pass, hissues, if_neg Bool.false_ne_true]
    exact congrArg Run.tree (ite_self (runStep s id (r₀.enter id)))
  have hoperands : ((r₀.enter id).operands id [.reference path]).1 = [r.tree.resolve id path] :=
    congrArg (fun value => [value]) hresolve
  have hget := Applies.get?_runStep s (r := r₀.enter id) hk₀
  rw [hargs, hoperands, ← hrun] at hget
  exact ⟨_, hget, rfl, List.nil_append _⟩

end Run

/-! ## What a valid object holds -/

/-- The tracker of an object without issues holds the final values of the members. -/
theorem Entity.Standard.object_values {e : Entity} {t : TrackerTree} {x : TrackerId}
    {raw : String → Option Value} {k l : Tracker} {fields : List (String × Chain)}
    (h : e.Standard) (hkind : e.source.kind = .object fields) (hk : k.Untouched)
    (made : e.Makes (t.parts x raw) k l) (hl : l.hasIssues = false)
    (hv : k.value.isSome = true) :
    ∃ output, l.value = some (.object output) ∧
      ∀ name ∈ fields.map (·.1), Value.lookup? name output = (t.child? x name).bind t.value? := by
  obtain ⟨n, source, resolver, body⟩ := e
  obtain ⟨m, hreplaces, hjudges⟩ := made
  have hp : (Pipeline.ofSteps source.pipeline).Registered Registry.standard := h.pipeline
  have hbody : FitsBody source body := h.fits.body
  have hkind : source.kind = .object fields := hkind
  obtain ⟨members, schedule, escaping, rfl, rfl⟩ := hbody.of_object hkind
  obtain rfl : m = k.claim n := hreplaces
  rw [Table.names_map]
  have hmade : Unreached (some fun v => v.asObject?.isSome) k l ∨ _ :=
    behaviour_makes
      (Q := fun l' => ∃ output, l'.value = some (.object output) ∧ ∀ name ∈ members.map (·.1),
        Value.lookup? name output = (t.child? x name).bind t.value?) hp hk hjudges
      (fun k' l' hchildren hquiet _ hinspect => ?_) (fun k' l' hQ htreated => ?_)
      fun k' l' hQ hconvert => hconvert ▸ hQ
  · refine hmade.resolve_left fun hunreached => ?_
    exact absurd ((hunreached.failed rfl hv).symm.trans hl) nofun
  · cases hinspect.inspected with
    | kept leaf _ => exact leaf.elim
    | refused check _ => exact .inl (.refused hchildren hquiet check)
    | members _ _ _ =>
      refine .inr ⟨_, rfl, fun name hname => ?_⟩
      rw [lookup?_outputOf, if_pos hname]
      rfl
  · obtain ⟨output, houtput, hkeys⟩ := hQ
    exact ⟨output, htreated.composite houtput rfl, hkeys⟩

/-- A value that was there has not been forbidden if there is no issue. -/
theorem Entity.Makes.allowed {e : Entity} {parts : String → Part} {k l : Tracker} {p : Pipeline}
    {hooks : Hooks} (h : e.Makes parts k l) (hbody : e.body = .behaviour p hooks)
    (hv : k.value.isSome = true) (hl : l.hasIssues = false) :
    e.source.props.forbidden = false := by
  obtain ⟨m, hreplaces, hjudges⟩ := h
  rw [hbody] at hreplaces
  obtain rfl : m = k.claim e.id := hreplaces
  have hv : (k.claim e.id).value.isSome = true := hv
  cases hjudges.judged with
  | missing hnone _ | substituted hnone _ _ => exact absurd (hnone ▸ hv) nofun
  | forbidden _ _ => exact absurd ((Tracker.hasIssues_record _).symm.trans hl) nofun
  | behaved _ hallowed _ => exact hallowed

namespace Run

open Entity TrackerTree

section

variable {c list choice : Chain} {e member lister : Entity} {fields : List (String × Chain)}
  {input : List (String × Value)} {r : Run} {s n : String} {x y : TrackerId}

/-- In a valid run on an object, the output has the final values of the members, which have been
processed without an issue. -/
theorem valid_members (hc : c.Built Registry.standard) (h : Mapper.standard.compile c = .ok e)
    (hkind : c.kind = .object fields) (hr : e.run (some (.object input)) = r)
    (hvalid : r.isValid = true) :
    ∃ output, r.finalValue = some (.object output) ∧
      ∀ {name : String} {field : Chain}, Table.get? fields name = some field →
        ∃ x member k, r.tree.child? root name = some x ∧ e.child? name = some member ∧
          member.source = field ∧ k.Untouched ∧ k.value = Value.lookup? name input ∧
          Told r.tree member k x ∧ r.tree.hasIssues x = false ∧
          Value.lookup? name output = r.tree.value? x := by
  have harranged := Mapper.compile_arranged h
  have hstandard := Entity.standard_of_built hc h
  obtain ⟨rfl, hfits⟩ := Mapper.compile_fits h
  obtain ⟨hl, htold, -, -⟩ := Entity.run_told harranged (some (.object input))
  rw [hr] at hl htold
  have hclean : r.tree.hasIssuesBelow root = false := by simpa [isValid] using hvalid
  obtain ⟨l, get⟩ := exists_get? htold.lt_size
  have hissues : l.hasIssues = false := by
    rw [← hasIssues_of_get? get]
    exact htold.clean hl hclean (show r.tree.follow root [] = some root from rfl)
  obtain ⟨raw, made⟩ := htold.makes get
  obtain ⟨output, houtput, hkeys⟩ :=
    (hstandard [] e rfl).object_values hkind ⟨rfl, rfl, rfl⟩ made hissues rfl
  have hmade := (hstandard [] e rfl).reached ⟨rfl, rfl, rfl⟩ made hissues rfl (by rw [hkind]; rfl)
  rw [hkind] at hmade
  have hchildren : Table.names l.children = fields.map (·.1) := MadeObject.children hmade
  refine ⟨output, (value?_of_get? get).trans houtput, fun {name field} hfield => ?_⟩
  have hname := Table.mem_names_of_get? hfield
  obtain ⟨x, hx⟩ : ∃ x, r.tree.child? root name = some x := by
    rw [child?_of_get? get]
    exact Option.isSome_iff_exists.1 (Table.contains_iff.2 (hchildren ▸ hname))
  have hfollow : r.tree.follow root [name] = some x := by
    rw [follow_cons, hx]
    rfl
  obtain ⟨member, k, hmember, hk, hinner, hvalue⟩ := htold.follow ⟨rfl, rfl, rfl⟩ hfollow
  rw [Entity.at?_singleton] at hmember
  have hsource := (hfits [] e rfl).child? hmember
  rw [hkind] at hsource
  refine ⟨x, member, k, hx, hmember, Option.some.inj (hsource.symm.trans hfield), hk, ?_, hinner,
    htold.clean hl hclean hfollow, ?_⟩
  · rw [hvalue (hstandard.mono fun _ => Entity.Standard.handsOn)]
    exact Value.at?_singleton _ name
  · rw [hkeys name hname, hx]
    rfl

/-- A member of any kind that has one step, a choice from the list of another member. -/
structure Chooses (choice : Chain) (s : String) : Prop where
  kind : choice.kind = .any
  pipeline : ∃ p prioritize, Table.get? Registry.standard "one-of" = some p ∧
    choice.pipeline = [⟨p, [.reference ⟨[s]⟩], prioritize⟩]

/-- What such a member compiles to. -/
theorem Chooses.body (h : Chooses choice s) (hfits : member.Fits)
    (hsource : member.source = choice) :
    member.body = .behaviour
      ⟨none, [⟨.step "one-of" Processor.oneOf, [.reference ⟨[s]⟩]⟩]⟩ .pass := by
  obtain ⟨p, prioritize, hp, hpipeline⟩ := h.pipeline
  obtain rfl : .step "one-of" Processor.oneOf = p := Option.some.inj hp
  rw [hfits.body.of_any (hsource ▸ h.kind), hsource, hpipeline]
  rfl

/-- The choice is made when the list is what it is in the end. -/
theorem run_choice (hc : c.Built Registry.standard) (h : Mapper.standard.compile c = .ok e)
    (hkind : c.kind = .object fields) (hr : e.run (some (.object input)) = r)
    (hlister : e.child? s = some lister) (hy : r.tree.child? root s = some y)
    (hmember : e.child? n = some member) (hx : r.tree.child? root n = some x) (hne : s ≠ n)
    (hchoice : Chooses member.source s) (hallowed : member.source.props.forbidden = false)
    {v : Value} (hv : Value.lookup? n input = some v) :
    ∃ l, r.tree.get? x = some l ∧ l.value = some (Processor.oneOf v [r.tree.value? y]).value ∧
      l.issues = issuesOf "one-of" (Processor.oneOf v [r.tree.value? y]) := by
  have harranged := Mapper.compile_arranged h
  have hstandard := Entity.standard_of_built hc h
  obtain ⟨rfl, hfits⟩ := Mapper.compile_fits h
  obtain ⟨members, schedule, escaping, hschedule, hchild, hnames, ha⟩ :=
    harranged.of_object (hfits [] e rfl) hkind
  have hbare : Intake.Bare root (.ofValue (some (.object input)))
      { value := some (.object input) } := ⟨linked_ofValue _, rfl, rfl, rfl⟩
  obtain ⟨r', hran⟩ :=
    (process_inTurn harranged (hstandard [] e rfl) hbare hschedule).ran hschedule hmember
      (show (e.run (some (.object input))).tree.child? root n = some x from hr ▸ hx)
  rw [show e.process root (.ofValue (some (.object input))) = r from hr] at hran
  have hbody := hchoice.body ((hstandard.child hmember) [] member rfl).fits rfl
  -- the choice waits for the list
  have hjoins : Schedule.Joins schedule.edges s n := by
    have hpath : ⟨[s]⟩ ∈ member.references := by
      obtain ⟨k, source, resolver, body⟩ := member
      obtain rfl : body = _ := hbody
      simp [references, mem_distinct, bodyReferences, Pipeline.references, Pipeline.toList,
        Operand.path?]
    rcases ha.leads ((hchild n).symm.trans hmember) hpath rfl with h | ⟨-, h⟩ | ⟨h, -⟩ | ⟨h, -⟩
    · exact absurd h hne
    · exact h
    · exact absurd (Table.mem_names_of_get? ((hchild s).symm.trans hlister)) h
    · exact absurd (Table.mem_names_of_get? ((hchild s).symm.trans hlister)) h
  have hresolve : r'.tree.resolve x ⟨[s]⟩ = r.tree.value? y := by
    have hy' : r'.tree.child? root s = some y := (hran.beside s).trans hy
    rw [hran.bare.linked.resolve_child ((hran.beside n).trans hx) rfl, hy',
      if_pos Option.isSome_some, follow_cons, hy', Option.bind_some]
    exact congrArg (·.bind Tracker.value) (hran.waited hjoins hy)
  obtain ⟨l, hget, hvalue, hissues⟩ := process_single hbody rfl hran.bare.get rfl
    (show Value.lookup? n input = some v from hv) hallowed
  rw [hresolve] at hvalue hissues
  exact ⟨l, hran.made.symm.trans hget, hvalue, hissues⟩

/-- In a valid run of what the standard mapper makes of an object over the standard registry, a
member that chooses from the list of another one has the value of the input, and that is in the
list that the other one has in the end, unless this list is empty. -/
theorem chosen_values (hc : c.Built Registry.standard) (h : Mapper.standard.compile c = .ok e)
    (hkind : c.kind = .object fields) (hlist : Table.get? fields s = some list)
    {items : Option Chain} (harray : list.kind = .array items)
    (hfield : Table.get? fields n = some choice) (hchoice : Chooses choice s)
    (hs : (Value.lookup? s input).isSome = true) (hn : (Value.lookup? n input).isSome = true)
    (hr : e.run (some (.object input)) = r) (hvalid : r.isValid = true) :
    ∃ output v values, r.finalValue = some (.object output) ∧
      Value.lookup? n input = some v ∧ Value.lookup? n output = some v ∧
      Value.lookup? s output = some (.list values) ∧
      (values.contains v = true ↔ values ≠ []) := by
  obtain ⟨v, hv⟩ := Option.isSome_iff_exists.1 hn
  have hne : s ≠ n := by
    rintro rfl
    obtain rfl := Option.some.inj (hlist.symm.trans hfield)
    exact nomatch harray.symm.trans hchoice.kind
  obtain ⟨output, houtput, hall⟩ := valid_members hc h hkind hr hvalid
  obtain ⟨y, lister, k, hy, hlister, rfl, hk, hky, htold, hclean, hys⟩ := hall hlist
  obtain ⟨x, member, k', hx, hmember, rfl, hk', hkx, htold', hclean', hxn⟩ := hall hfield
  have hstandard := Entity.standard_of_built hc h
  have hlister' := (hstandard.child hlister) [] lister rfl
  have hmember' := (hstandard.child hmember) [] member rfl
  -- the list has its type, and the choice has been made
  obtain ⟨l, get⟩ := exists_get? htold.lt_size
  have htyped := htold.typed hlister' hk get hclean (hky ▸ hs) (by rw [harray]; rfl)
  obtain ⟨w, hw, hitems⟩ := (Option.any_eq_true _ _).1 htyped
  obtain ⟨values, rfl⟩ : ∃ values, w = .list values := by
    cases w with
    | list values => exact ⟨values, rfl⟩
    | _ => cases hitems
  have hvalues : r.tree.value? y = some (.list values) := (value?_of_get? get).trans hw
  obtain ⟨l', get'⟩ := exists_get? htold'.lt_size
  have hissues : l'.hasIssues = false := by
    rw [← hasIssues_of_get? get']
    exact hclean'
  obtain ⟨raw, made⟩ := htold'.makes get'
  have hallowed := made.allowed (hchoice.body hmember'.fits rfl) (hkx ▸ hn) hissues
  obtain ⟨m, hm, hvalue, hm'⟩ :=
    run_choice hc h hkind hr hlister hy hmember hx hne hchoice hallowed hv
  obtain rfl := Option.some.inj (get'.symm.trans hm)
  rw [hvalues] at hvalue hm'
  rw [(Processor.oneOf_checks v _).hands.value_eq] at hvalue
  have hpasses := Processor.oneOf_list.1
    (hm'.symm.trans (by simpa [Tracker.hasIssues] using hissues))
  refine ⟨output, v, values, houtput, hv, hxn.trans ((value?_of_get? get').trans hvalue),
    hys.trans hvalues, ?_, fun hne' => hpasses.resolve_left hne'⟩
  rintro hcontains rfl
  cases hcontains

end

/-! ## A choice that is declared before its list -/

def choiceSchema : Schema := { registry := Registry.standard }

/-- A value that has to be in the list of `s`. -/
def chosen : Chain :=
  .mk .any {} [⟨.step "one-of" Processor.oneOf, [.reference ⟨["s"]⟩], false⟩] Registry.standard

theorem oneOf_chosen : choiceSchema.any.oneOf [.reference ⟨["s"]⟩] = .ok chosen := rfl

theorem chooses_chosen : Chooses chosen "s" := ⟨rfl, _, _, rfl, rfl⟩

/-- An object with a list and a value from it. -/
def choosing : Chain := (choiceSchema.object.field "n" chosen).field "s" choiceSchema.array

theorem built_choosing : choosing.Built Registry.standard := by
  refine .field "s" (.field "n" (.configure _ (.start fun _ => rfl)) ?_) (.start fun _ => rfl)
  exact .addStep (.start fun _ => rfl) (show choiceSchema.any.step "one-of" _ = _ from oneOf_chosen)

/-- What it compiles to: the list comes first. -/
def chooser : Entity :=
  .mk 0 choosing none (.behaviour ⟨none, []⟩ (.object
    [("n", .mk 1 chosen none (.behaviour (.ofSteps chosen.pipeline) .pass)),
      ("s", .mk 2 choiceSchema.array none (.behaviour ⟨none, []⟩ (.array none)))]
    ⟨[("n", some "n"), ("s", some "s")], [("s", "n")], some ["s", "n"]⟩ .strip []))

theorem compile_choosing : Mapper.standard.compile choosing = .ok chooser := by cbv

theorem chosen_values_two :
    let input := [("n", .num (.int 2)), ("s", .list [.num (.int 1), .num (.int 2)])]
    let r := chooser.run (some (.object input))
    choosing.Built Registry.standard ∧ Mapper.standard.compile choosing = .ok chooser ∧
      Chooses chosen "s" ∧ r.isValid = true ∧
      ∃ output v values, r.finalValue = some (.object output) ∧
        Value.lookup? "n" output = some v ∧ Value.lookup? "s" output = some (.list values) ∧
        (values.contains v = true ↔ values ≠ []) := by
  intro input r
  have hvalid : r.isValid = true := by decide +kernel
  obtain ⟨output, v, values, houtput, -, hn, hs, hiff⟩ := chosen_values built_choosing
    compile_choosing (show choosing.kind = .object _ from rfl)
    (show Table.get? [("n", chosen), ("s", choiceSchema.array)] "s" = some _ from rfl) rfl
    (show Table.get? [("n", chosen), ("s", choiceSchema.array)] "n" = some _ from rfl)
    chooses_chosen (show (Value.lookup? "s" input).isSome = true from rfl)
    (show (Value.lookup? "n" input).isSome = true from rfl) rfl hvalid
  exact ⟨built_choosing, compile_choosing, chooses_chosen, hvalid, output, v, values, houtput, hn,
    hs, hiff⟩

/-- A value passes as one of an empty list. -/
theorem empty_choice :
    let r := chooser.run (some (.object [("n", .num (.int 5)), ("s", .list [])]))
    choosing.Built Registry.standard ∧ Mapper.standard.compile choosing = .ok chooser ∧
      Chooses chosen "s" ∧ r.isValid = true ∧
      (r.finalValue == some (.object [("n", .num (.int 5)), ("s", .list [])])) = true ∧
      ([] : List Value).contains (.num (.int 5)) = false :=
  ⟨built_choosing, compile_choosing, chooses_chosen, by decide +kernel, by decide +kernel, rfl⟩

end Run

end Intake
