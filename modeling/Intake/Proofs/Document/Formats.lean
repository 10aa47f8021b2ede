import Intake.Processor.Standard
import Intake.Proofs.Document.Build
/-!
# Where a format step is listed

A format step runs first wherever a document lists it, and the other steps of the field are placed
as if it were not there.  Still its place in the list matters: a prioritized step that is listed
behind the format step is refused, since it would run before it, and the same step listed in front
of the format step is accepted.

    build (before ++ f :: after) = if after.any (·.prioritize) then none
      else (build (before ++ after)).map (lead f)          (`format_listed`)

Two places in a list thus give the same unless prioritized steps stand behind one of them only
(`format_listed_first_refused`).
-/

namespace Intake

/-- The chain with a step in front of its pipeline. -/
def Chain.lead (s : Step) : Chain → Chain
  | mk kind props pipeline registry => mk kind props (s :: pipeline) registry

namespace FieldSpec

/-- The same field with other steps. -/
def withSteps (steps : List StepSpec) : FieldSpec → FieldSpec
  | mk type required forbidden default? label _ items fields unknownKeys path outputFormat =>
    mk type required forbidden default? label steps items fields unknownKeys path outputFormat

/-! ## One step -/

section

variable {c c' : Chain} {s : StepSpec} {f : Step}

theorem addSpec_eq_ok (h : addSpec c s = .ok c') :
    ∃ p, Table.get? c.registry s.name = some p ∧
      c' = .mk c.kind c.props (Chain.place c.pipeline
        ⟨p, s.args.map (·.operand), s.prioritize || isFormat c.registry s.name⟩) c.registry := by
  obtain ⟨p, hp, -, he⟩ := Chain.addStep_eq_ok h
  exact ⟨p, hp, he⟩

/-- A format step is accepted behind whatever is no format step, and goes to the front. -/
theorem addSpec_format {p : Processor} (hp : Table.get? c.registry s.name = some p)
    (hformat : p.isFormat = true) (hpipeline : ∀ t ∈ c.pipeline, t.isFormat = false) :
    addSpec c s = .ok (c.lead ⟨p, s.args.map (·.operand), true⟩) := by
  obtain ⟨kind, props, pipeline, registry⟩ := c
  have hp : Table.get? registry s.name = some p := hp
  have hnone : Chain.formatStep? pipeline = none := by
    rw [Chain.formatStep?, List.find?_eq_none]
    intro t ht
    simpa using hpipeline t ht
  have hfront : (s.prioritize || isFormat registry s.name) = true := by
    simp [isFormat, hp, hformat]
  have hplace : Chain.misplacement? pipeline p true = none := by
    simp [Chain.misplacement?, hformat, hnone]
  show Chain.addStep (.mk kind props pipeline registry) s.name _
    (s.prioritize || isFormat registry s.name) = _
  rw [hfront, Chain.addStep, hp]
  simp only [hplace]
  rfl

/-- Behind a format step the same steps are placed alike, apart from the prioritized ones: these
are refused. -/
theorem addSpec_lead (hf : f.isFormat = true) (hs : isFormat c.registry s.name = false) :
    (addSpec (c.lead f) s).toOption =
      if s.prioritize then none else (addSpec c s).toOption.map (Chain.lead f) := by
  obtain ⟨kind, props, pipeline, registry⟩ := c
  have hs : isFormat registry s.name = false := hs
  show (Chain.addStep (.mk kind props (f :: pipeline) registry) s.name _
      (s.prioritize || isFormat registry s.name)).toOption =
    if s.prioritize then none else (Chain.addStep (.mk kind props pipeline registry) s.name _
      (s.prioritize || isFormat registry s.name)).toOption.map (Chain.lead f)
  rw [hs, Bool.or_false, Chain.addStep, Chain.addStep]
  cases hp : Table.get? registry s.name with
  | none => simp [Except.toOption]
  | some p =>
    have hplain : p.isFormat = false := by simpa [isFormat, hp] using hs
    cases hprior : s.prioritize with
    | true => simp [Chain.misplacement?, hplain, Chain.formatStep?, hf, Except.toOption]
    | false => simp [Chain.misplacement?, hplain, Chain.place, Chain.lead, Except.toOption]

end

/-! ## The steps of a field -/

/-- A chain that has no format step. -/
structure Plain (registry : Registry) (c : Chain) : Prop where
  registry_eq : c.registry = registry
  pipeline : ∀ t ∈ c.pipeline, t.isFormat = false

section

variable {registry : Registry} {c c' : Chain} {steps : List StepSpec} {f : Step}

theorem Plain.addSpec {s : StepSpec} (h : Plain registry c)
    (hs : isFormat registry s.name = false) (h' : FieldSpec.addSpec c s = .ok c') :
    Plain registry c' := by
  obtain ⟨p, hp, rfl⟩ := addSpec_eq_ok h'
  refine ⟨h.registry_eq, fun t ht => ?_⟩
  rw [h.registry_eq] at hp
  have hplain : p.isFormat = false := by simpa [isFormat, hp] using hs
  have ht : t ∈ Chain.place c.pipeline
      ⟨p, s.args.map (·.operand), s.prioritize || isFormat c.registry s.name⟩ := ht
  rcases Chain.mem_place.1 ht with rfl | ht
  · exact hplain
  · exact h.pipeline t ht

theorem Plain.addSteps (h : Plain registry c)
    (hsteps : ∀ s ∈ steps, isFormat registry s.name = false)
    (h' : steps.foldlM FieldSpec.addSpec c = .ok c') : Plain registry c' :=
  foldlM_keeps (fun s hs _ _ hplain hnext => hplain.addSpec (hsteps s hs) hnext) h h'

/-- Steps behind a format step. -/
theorem addSteps_lead (h : c.registry = registry) (hf : f.isFormat = true)
    (hsteps : ∀ s ∈ steps, isFormat registry s.name = false) :
    (steps.foldlM addSpec (c.lead f)).toOption =
      if steps.any (·.prioritize) then none
      else (steps.foldlM addSpec c).toOption.map (Chain.lead f) := by
  induction steps generalizing c with
  | nil => rfl
  | cons s rest ih =>
    obtain ⟨hs, hrest⟩ := List.forall_mem_cons.1 hsteps
    rw [List.foldlM_cons, List.foldlM_cons, toOption_bind, toOption_bind, List.any_cons,
      addSpec_lead hf (h ▸ hs)]
    cases hprior : s.prioritize with
    | true => simp
    | false =>
      cases hnext : addSpec c s with
      | error e => simp [Except.toOption]
      | ok next =>
        have hregistry : next.registry = registry := by
          obtain ⟨p, -, rfl⟩ := addSpec_eq_ok hnext
          exact h
        rw [Bool.false_or, if_neg Bool.false_ne_true]
        exact ih hregistry hrest

end

/-! ## Fields -/

section

variable {schema : Schema} {location : String} {spec : FieldSpec}

/-- The steps of a field are added to the chain that the field has without them. -/
theorem build_withSteps (steps : List StepSpec) :
    build schema location (spec.withSteps steps) =
      build schema location (spec.withSteps []) >>= addSteps steps := by
  obtain ⟨type, required, forbidden, default?, label, _, items, fields, unknownKeys, path,
    outputFormat⟩ := spec
  -- the steps come last, whatever the chain has been made from
  have hconfigured : ∀ base : Except DocumentError Chain,
      (base >>= fun c => addSteps steps
        (configure required forbidden default? label unknownKeys outputFormat c)) =
      (base >>= fun c => addSteps []
        (configure required forbidden default? label unknownKeys outputFormat c)) >>=
          addSteps steps := by
    intro base
    cases base <;> rfl
  rw [withSteps, withSteps, build, build]
  dsimp only
  rw [unusedOption?, unusedOption?]
  split
  · rfl
  · rw [hconfigured, hconfigured, hconfigured]
    split
    · rfl
    · split <;> rfl

theorem plain_of_build {c : Chain} (h : build schema location (spec.withSteps []) = .ok c) :
    Plain schema.registry c := by
  obtain ⟨type, required, forbidden, default?, label, _, items, fields, unknownKeys, path,
    outputFormat⟩ := spec
  have hassembled : Chain.Assembled schema.registry [] c := by
    rw [withSteps, build] at h
    dsimp only at h
    split at h
    · cases h
    · split at h
      · obtain ⟨base, hbase, h⟩ := bind_eq_ok.1 h
        obtain rfl := Except.ok.inj h
        refine .mapProps _ ?_
        cases items with
        | none => exact Except.ok.inj hbase ▸ .start _
        | some item =>
          obtain ⟨member, -, rfl⟩ := map_eq_ok.1 hbase
          exact .mapKind _ (.start _)
      · split at h
        · obtain ⟨base, hbase, h⟩ := bind_eq_ok.1 h
          obtain rfl := Except.ok.inj h
          obtain ⟨members, -, rfl⟩ := map_eq_ok.1 hbase
          exact .mapProps _ (.mapKind _ (.mapProps _ (.start _)))
        · obtain ⟨base, hbase, h⟩ := bind_eq_ok.1 h
          exact Except.ok.inj h ▸ .mapProps _ (assembled_of_buildLeaf hbase)
  have hpipeline : c.pipeline = [] := hassembled.pipeline_eq.1
  exact ⟨hassembled.registry_eq, by simp [hpipeline]⟩

theorem exists_format {registry : Registry} {name : String}
    (h : isFormat registry name = true) :
    ∃ p, Table.get? registry name = some p ∧ p.isFormat = true := by
  simpa [isFormat, Option.any_eq_true] using h

/-- The chain that the steps make of one without format steps: the format step in front, and the
other steps placed as if it were not there.  A prioritized step behind the format step is
refused. -/
theorem addSteps_listed {registry : Registry} {c : Chain} {before after : List StepSpec}
    {f : StepSpec} {p : Processor} (hc : Plain registry c)
    (hbefore : ∀ s ∈ before, isFormat registry s.name = false)
    (hafter : ∀ s ∈ after, isFormat registry s.name = false)
    (hp : Table.get? registry f.name = some p) (hformat : p.isFormat = true) :
    (addSteps (before ++ f :: after) c).toOption =
      if after.any (·.prioritize) then none
      else (addSteps (before ++ after) c).toOption.map
        (Chain.lead ⟨p, f.args.map (·.operand), true⟩) := by
  rw [addSteps, addSteps, toOption_mapError, toOption_mapError, List.foldlM_append,
    List.foldlM_append, toOption_bind, toOption_bind]
  cases hfront : before.foldlM addSpec c with
  | error e => simp [Except.toOption]
  | ok front =>
    have hplain := hc.addSteps hbefore hfront
    have hadd := addSpec_format (hplain.registry_eq ▸ hp) hformat hplain.pipeline
    show ((f :: after).foldlM addSpec front).toOption =
      if after.any (·.prioritize) then none
      else (after.foldlM addSpec front).toOption.map _
    rw [List.foldlM_cons, hadd]
    exact addSteps_lead hplain.registry_eq hformat hafter

/-- A field with one format step is built as if the step were not there, and the step is put in
front; but if a prioritized step is listed behind it, building fails. -/
theorem build_listed {before after : List StepSpec} {f : StepSpec} {p : Processor}
    (hbefore : ∀ s ∈ before, isFormat schema.registry s.name = false)
    (hafter : ∀ s ∈ after, isFormat schema.registry s.name = false)
    (hp : Table.get? schema.registry f.name = some p) (hformat : p.isFormat = true) :
    (build schema location (spec.withSteps (before ++ f :: after))).toOption =
      if after.any (·.prioritize) then none
      else (build schema location (spec.withSteps (before ++ after))).toOption.map
        (Chain.lead ⟨p, f.args.map (·.operand), true⟩) := by
  rw [build_withSteps, build_withSteps (before ++ after), toOption_bind, toOption_bind]
  cases hbase : build schema location (spec.withSteps []) with
  | error e => simp [Except.toOption]
  | ok base => exact addSteps_listed (plain_of_build hbase) hbefore hafter hp hformat

end

/-! ## The main result -/

/-- Whatever the registry and the field: with one format step the field gives what it gives without
it, the format step in front, unless a prioritized step is listed behind the format step; then
there is no chain.  So two places in the list give the same chain, or none both, exactly if the
other steps fail by themselves or both places have a prioritized step behind them, or neither. -/
theorem format_listed (schema : Schema) (location : String) (spec : FieldSpec) (f : StepSpec)
    (before after : List StepSpec) (hformat : isFormat schema.registry f.name = true)
    (hplain : ∀ s ∈ before ++ after, isFormat schema.registry s.name = false) :
    (∃ p, Table.get? schema.registry f.name = some p ∧ p.isFormat = true ∧
      (build schema location (spec.withSteps (before ++ f :: after))).toOption =
        if after.any (·.prioritize) then none
        else (build schema location (spec.withSteps (before ++ after))).toOption.map
          (Chain.lead ⟨p, f.args.map (·.operand), true⟩)) ∧
    ∀ before' after', before' ++ after' = before ++ after →
      ((build schema location (spec.withSteps (before ++ f :: after))).toOption =
          (build schema location (spec.withSteps (before' ++ f :: after'))).toOption ↔
        (build schema location (spec.withSteps (before ++ after))).toOption = none ∨
          after.any (·.prioritize) = after'.any (·.prioritize)) := by
  obtain ⟨p, hp, hpformat⟩ := exists_format hformat
  have hlisted : ∀ before' after', before' ++ after' = before ++ after →
      (build schema location (spec.withSteps (before' ++ f :: after'))).toOption =
        if after'.any (·.prioritize) then none
        else (build schema location (spec.withSteps (before ++ after))).toOption.map
          (Chain.lead ⟨p, f.args.map (·.operand), true⟩) := by
    intro before' after' hsame
    rw [← hsame] at hplain ⊢
    obtain ⟨hbefore, hafter⟩ := List.forall_mem_append.1 hplain
    exact build_listed hbefore hafter hp hpformat
  refine ⟨⟨p, hp, hpformat, hlisted before after rfl⟩, fun before' after' hsame => ?_⟩
  rw [hlisted before after rfl, hlisted before' after' hsame]
  cases build schema location (spec.withSteps (before ++ after)) with
  | error e => simp [Except.toOption]
  | ok c =>
    cases after.any (·.prioritize) <;> cases after'.any (·.prioritize) <;> simp [Except.toOption]

/-- A step that reads a number, and one that bounds it and is to run early. -/
def numberParse : StepSpec := { name := "number/parse" }

def numberMin : StepSpec :=
  { name := "number/min", args := [.literal (.num (.int 1))], prioritize := true }

/-- A number and its steps, in the order in which they are listed. -/
def numberField (steps : List StepSpec) : FieldSpec :=
  .mk "number" false false none none steps none [] none none none

theorem format_listed_number :
    isFormat Registry.standard "number/parse" = true ∧
    (build { registry := Registry.standard } "schema"
      (numberField [numberParse, numberMin])).toOption = none := by
  have hformat : isFormat Registry.standard "number/parse" = true := by decide
  obtain ⟨⟨p, -, -, h⟩, -⟩ := format_listed { registry := Registry.standard } "schema"
    (numberField []) numberParse [] [numberMin] hformat (by decide)
  exact ⟨hformat, h⟩

/-- Listed last, the format step goes to the front; listed first, it is in the way of the
prioritized step. -/
theorem format_listed_first_refused :
    (∃ c, build { registry := Registry.standard } "schema"
        (numberField [numberMin, numberParse]) = .ok c ∧
      c.pipeline.map (·.key) = ["number/parse", "number/min"]) ∧
    build { registry := Registry.standard } "schema" (numberField [numberParse, numberMin]) =
      .error (.build (.misplacedFormatStep "number/parse"
        "prioritized step 'number/min' would run before it")) := by
  refine ⟨⟨_, rfl, by decide⟩, rfl⟩

end FieldSpec

end Intake
