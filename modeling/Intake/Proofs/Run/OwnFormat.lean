import Intake.Proofs.Run.CanonicalDates
import Intake.Proofs.Run.DefinedValues
/-!
# Format steps and the check of their kind

Numbers, truth values and dates have a format processor of their own.  What passes it is accepted
by the check of the kind, and passes it once more as it is (`own_format`):

    p.run w args = .pass w

So where a pipeline starts with the format processor of its kind, the check of the kind comes upon
a value that has passed and records nothing.  The chain does what it would do without the check:
the steps one after the other, and then the conversion.
-/

namespace Intake

/-- The format processor of a kind, if it has one of its own. -/
def Kind.ownFormat? : Kind → Option String
  | .number => some "number/parse"
  | .boolean => some "boolean/parse"
  | .date => some "date/parse"
  | _ => none

/-- A value of a kind that the format processor of the kind has nothing more to do with: the check
of the kind accepts it, and the processor leaves it as it is, whatever the arguments are.  A date
is left so without arguments, since another pattern may read its text as another date. -/
structure Kind.Settled (kind : Kind) (p : Processor) (accepts : Value → Bool) (w : Value) :
    Prop where
  accepted : accepts w = true
  fixed : ∀ args, (kind = .date → args = []) → p.run w args = .pass w

/-! ## What passes a format processor -/

theorem Run.issuesOf_eq_nil_iff {key : String} {result : StepResult} :
    issuesOf key result = [] ↔ result.isFailure = false := by
  obtain ⟨value, fail, issues⟩ := result
  cases fail <;> cases issues <;> simp [issuesOf, StepResult.isFailure]

namespace Processor

variable {v : Value} {args : Arguments} {d : Date}

theorem run_format (key : String) (run : Value → Arguments → StepResult) :
    (Processor.format key run).run = run := rfl

theorem settled_parseNumber (h : (parseNumber v args).isFailure = false) :
    Kind.number.Settled (.format "number/parse" parseNumber) TypeCheck.number.accepts
      (parseNumber v args).value := by
  unfold parseNumber at h ⊢
  cases v with
  | num n => exact ⟨rfl, fun _ _ => rfl⟩
  | str s =>
    dsimp only at h ⊢
    cases hn : numberOfText s with
    | some n => exact ⟨rfl, fun _ _ => rfl⟩
    | none =>
      rw [hn] at h
      cases h
  | _ => cases h

theorem settled_parseTruth (h : (parseTruth v args).isFailure = false) :
    Kind.boolean.Settled (.format "boolean/parse" parseTruth) TypeCheck.boolean.accepts
      (parseTruth v args).value := by
  unfold parseTruth at h ⊢
  cases hb : truthOf v with
  | some b => exact ⟨rfl, fun _ _ => rfl⟩
  | none =>
    rw [hb] at h
    cases h

/-- A date of a pipeline is read as itself where no pattern is given. -/
theorem dateOfText_isoPattern {s : String} (h : dateOf (.str s) = some d) :
    dateOfText Date.isoPattern s = some d := by
  obtain ⟨t, ht, hvalid, hspells⟩ := dateOf_eq_some.1 h
  obtain rfl := Value.str.inj ht
  have hread := Date.read_isoPattern_iff.2 ⟨hvalid, hspells.trim⟩
  rw [dateOfText, hread]
  rfl

theorem settled_parseDate (h : (parseDate v args).isFailure = false) :
    Kind.date.Settled (.format "date/parse" parseDate) Run.isDate (parseDate v args).value := by
  obtain ⟨d, hcanonical⟩ := canonical_parseDate (Run.issuesOf_eq_nil_iff.2 h)
  have hreads := hcanonical.reads
  obtain ⟨-, hiso⟩ := Date.canonical_iff.1 hcanonical
  rw [hiso] at hreads ⊢
  refine ⟨Option.isSome_iff_exists.2 ⟨d, hreads⟩, fun args hargs => ?_⟩
  obtain rfl := hargs rfl
  have htext : (Value.str d.iso).asString?.bind (dateOfText (patternOf [])) = some d :=
    dateOfText_isoPattern hreads
  rw [run_format, parseDate, htext]

/-- The format processor of a kind makes values that are settled. -/
theorem settled_of_ownFormat {kind : Kind} {key : String} (hkey : kind.ownFormat? = some key)
    {p : Processor} (hp : Table.get? Registry.standard key = some p) :
    ∃ type accepts, kind.check? = some (type, accepts) ∧
      ∀ v args, (p.run v args).isFailure = false →
        kind.Settled p accepts (p.run v args).value := by
  cases kind with
  | number =>
    obtain rfl := Option.some.inj hkey
    obtain rfl : Processor.format "number/parse" parseNumber = p := Option.some.inj hp
    exact ⟨_, _, rfl, fun v args => @settled_parseNumber v args⟩
  | boolean =>
    obtain rfl := Option.some.inj hkey
    obtain rfl : Processor.format "boolean/parse" parseTruth = p := Option.some.inj hp
    exact ⟨_, _, rfl, fun v args => @settled_parseTruth v args⟩
  | date =>
    obtain rfl := Option.some.inj hkey
    obtain rfl : Processor.format "date/parse" parseDate = p := Option.some.inj hp
    exact ⟨_, _, rfl, fun v args => @settled_parseDate v args⟩
  | _ => cases hkey

theorem isFormat_of_ownFormat {kind : Kind} {key : String} (hkey : kind.ownFormat? = some key)
    {p : Processor} (hp : Table.get? Registry.standard key = some p) : p.isFormat = true := by
  cases kind with
  | number | boolean | date =>
    obtain rfl := Option.some.inj hkey
    obtain rfl := Option.some.inj hp
    rfl
  | _ => cases hkey

end Processor

/-! ## The check after the format step -/

theorem TrackerTree.update_of_none {t : TrackerTree} {id : TrackerId} (h : t.get? id = none)
    (f : Tracker → Tracker) : t.update id f = t := by
  refine congrArg TrackerTree.mk (Array.ext_getElem? fun i => ?_)
  rw [Array.getElem?_modify]
  split
  · next hi =>
    have hnone : t.trackers[i]? = none := hi ▸ h
    rw [hnone, Option.map_none]
  · rfl

namespace Run

variable {id : TrackerId} {r : Run} {k : Tracker} {s : CompiledStep}

/-- Where a step has recorded no issue, its result is no failure. -/
theorem passed_of_clean (hk : r.tree.get? id = some k)
    (h : (runStep s id r).hasIssues id = false) :
    ∃ v args, (s.processor.run v args).isFailure = false ∧
      (runStep s id r).value? id = some (s.processor.run v args).value := by
  have hget := Applies.get?_runStep s hk
  rw [hasIssues_of_get? hget] at h
  have hnone : k.issues ++ issuesOf s.processor.key
      (s.processor.run (k.value.getD .null) (r.operands id s.args).1) = [] := by
    simpa [Tracker.hasIssues] using h
  exact ⟨_, _, issuesOf_eq_nil_iff.1 (List.append_eq_nil_iff.1 hnone).2, value?_of_get? hget⟩

/-- A check that accepts whatever passes the step before it records nothing. -/
theorem check_after_step {type : String} {accepts : Value → Bool}
    (haccepts : ∀ v args, (s.processor.run v args).isFailure = false →
      accepts (s.processor.run v args).value = true)
    (h : (runStep s id r).hasIssues id = false) :
    check type accepts id (runStep s id r) = runStep s id r := by
  cases hk : r.tree.get? id with
  | none =>
    have hnone : (runStep s id r).tree.get? id = none := by
      rw [TrackerTree.get?_eq_none_iff, size_runStep]
      exact TrackerTree.get?_eq_none_iff.1 hk
    unfold check
    split
    · rfl
    · rw [record, mapTree, TrackerTree.record, TrackerTree.update_of_none hnone]
  | some k =>
    obtain ⟨v, args, hpassed, hvalue⟩ := passed_of_clean hk h
    rw [check, hvalue, Option.any_some, haccepts v args hpassed, if_pos rfl]

/-- An inspection that changes nothing after the format step might as well be left out. -/
theorem runPipeline_uninspected {p : Pipeline} {inspect convert : Stage} (hs : p.format = some s)
    (h : (runStep s id r).hasIssues id = false →
      inspect id (runStep s id r) = runStep s id r) :
    runPipeline p inspect convert id r = runSteps convert p.toList id r := by
  have hlist : p.toList = s :: p.steps := by rw [Pipeline.toList, hs]; rfl
  rw [hlist]
  unfold runPipeline
  rw [hs]
  show andThen (runStep s) (andThen inspect (runSteps convert p.steps)) id r =
    andThen (runStep s) (runSteps convert p.steps) id r
  cases hclean : (runStep s id r).hasIssues id with
  | true =>
    have hstops : ∀ G : Stage, andThen (runStep s) G id r = runStep s id r :=
      fun _ => if_pos hclean
    rw [hstops, hstops]
  | false =>
    have hinspect := h hclean
    rw [andThen_of_clean hclean, andThen_of_clean hclean,
      andThen_of_clean (hinspect.symm ▸ hclean), hinspect]

end Run

namespace Entity

open Run

theorem inspect_of_ownFormat {source : Chain} {body : Body} (h : FitsBody source body)
    {key type : String} {accepts : Value → Bool} (hkey : source.kind.ownFormat? = some key)
    (hcheck : source.kind.check? = some (type, accepts)) :
    ∃ hooks, body = .behaviour (.ofSteps source.pipeline) hooks ∧
      inspect hooks = check type accepts := by
  generalize hkind : source.kind = kind at hkey hcheck
  cases h.fitted hkind with
  | number | boolean | date =>
    cases hcheck
    exact ⟨_, rfl, rfl⟩
  | _ => cases hkey

/-! ## The main result -/

/-- Whatever value and arguments the format processor of a kind is given: if it succeeds, then its
output is accepted by the check of the kind, and the processor succeeds on it with the same output.
So wherever a chain of the kind starts with this processor, in a tree that the standard mapper has
compiled: on every tracker in every run, if the format step has left no issue, the check records
none, and what the chain does is to run its steps and the conversion as if there were no check. -/
theorem own_format {kind : Kind} {key : String} (hkey : kind.ownFormat? = some key) {p : Processor}
    (hp : Table.get? Registry.standard key = some p) :
    ∃ type accepts, kind.check? = some (type, accepts) ∧
      (∀ v args, (p.run v args).isFailure = false →
        kind.Settled p accepts (p.run v args).value) ∧
      ∀ {c : Chain} {root e : Entity}, Mapper.standard.compile c = .ok root → e.Within root →
        e.source.kind = kind → ∀ s rest, e.source.pipeline = s :: rest → s.processor = p →
        Phase.inspect.run e.body = check type accepts ∧
        ∀ id r,
          ((runStep ⟨p, s.args⟩ id r).hasIssues id = false →
            check type accepts id (runStep ⟨p, s.args⟩ id r) = runStep ⟨p, s.args⟩ id r) ∧
          behave e.body id r = (runSteps (Phase.convert.run e.body)
            (Pipeline.ofSteps e.source.pipeline).toList id (r.enter id)).leave := by
  obtain ⟨type, accepts, hcheck, hsettled⟩ := Processor.settled_of_ownFormat hkey hp
  refine ⟨type, accepts, hcheck, hsettled, ?_⟩
  intro c root e hc he hkind s rest hpipeline hprocessor
  obtain ⟨hfits, -⟩ := he.arranged hc
  obtain ⟨hooks, hbody, hinspect⟩ :=
    inspect_of_ownFormat hfits.body (hkind ▸ hkey) (hkind ▸ hcheck)
  have hformat : (Pipeline.ofSteps e.source.pipeline).format = some ⟨p, s.args⟩ := by
    rw [hpipeline, Pipeline.ofSteps, List.map_cons]
    dsimp only
    rw [hprocessor, if_pos (Processor.isFormat_of_ownFormat hkey hp)]
  have hunchanged : ∀ id r, (runStep ⟨p, s.args⟩ id r).hasIssues id = false →
      check type accepts id (runStep ⟨p, s.args⟩ id r) = runStep ⟨p, s.args⟩ id r :=
    fun id r => check_after_step fun v args hpassed => (hsettled v args hpassed).accepted
  rw [hbody]
  refine ⟨hinspect, fun id r => ⟨hunchanged id r, congrArg leave ?_⟩⟩
  rw [hinspect]
  exact runPipeline_uninspected hformat (hunchanged id (r.enter id))

/-- A year of five digits has a sign, with which it is read and written. -/
theorem own_format_parsed :
    let p := Processor.format "date/parse" Processor.parseDate
    let v := Value.str " +12021-3-5"
    let e := ofDate parsedDate
    Table.get? Registry.standard "date/parse" = some p ∧ (p.run v []).isFailure = false ∧
      Kind.date.Settled p isDate (p.run v []).value ∧
      Mapper.standard.compile parsedDate = .ok e ∧
      Phase.inspect.run e.body = check "date/type" isDate ∧
      (runStep ⟨p, []⟩ 0 (ofValue (some v))).hasIssues 0 = false ∧
      check "date/type" isDate 0 (runStep ⟨p, []⟩ 0 (ofValue (some v))) =
        runStep ⟨p, []⟩ 0 (ofValue (some v)) := by
  intro p v e
  have hprocessor : Table.get? Registry.standard "date/parse" = some p := rfl
  have hpassed : (p.run v []).isFailure = false := by decide +kernel
  have hcompiled : Mapper.standard.compile parsedDate = .ok e := rfl
  have hwithin : e.Within e := ⟨[], e, rfl, .inl rfl⟩
  have hclean : (runStep ⟨p, []⟩ 0 (ofValue (some v))).hasIssues 0 = false := by decide +kernel
  obtain ⟨type, accepts, hcheck, hsettled, hrun⟩ := @own_format .date _ rfl p hprocessor
  obtain ⟨rfl, rfl⟩ := Prod.mk.inj (Option.some.inj hcheck)
  obtain ⟨hinspect, hbehave⟩ := hrun hcompiled hwithin rfl _ _ rfl rfl
  exact ⟨hprocessor, hpassed, hsettled v [] hpassed, hcompiled, hinspect, hclean,
    (hbehave 0 (ofValue (some v))).1 hclean⟩

end Entity

end Intake
