import Intake.Chain.Builder
import Intake.Outcome
import Intake.Proofs.Entity.Standard
import Intake.Proofs.Processor.Dates
import Intake.Proofs.Run.FailFast
/-!
# Dates in a pipeline

The format step and the check of the kind leave the text of a date on the tracker, and the other
steps begin with that.  It is one of the spellings of the date.  A format step that parses dates
writes the canonical one; without a format step the text stays as it was given
(`canonical_dates`).

Equal texts are the same day, and canonical texts are equal exactly if they are the same day.  In
other spellings one day has many texts (`spelled_date`).
-/

namespace Intake

/-! ## Canonical texts -/

/-- The text of a date that is read as the date and is what is written for it. -/
structure Date.Canonical (d : Date) (v : Value) : Prop where
  reads : Processor.dateOf v = some d
  writes : (d.write Date.isoPattern).map Value.str = some v

namespace Date

variable {d e : Date} {v w : Value}

theorem canonical_iff : d.Canonical v ↔ d.Valid ∧ v = .str d.iso := by
  constructor
  · rintro ⟨hreads, hwrites⟩
    rw [write_isoPattern] at hwrites
    obtain rfl := Option.some.inj hwrites
    exact ⟨valid_of_read hreads, rfl⟩
  · rintro ⟨hvalid, rfl⟩
    exact ⟨hvalid.readIso_iso, congrArg _ (write_isoPattern d)⟩

theorem Canonical.beq_iff (hd : d.Canonical v) (he : e.Canonical w) : (v == w) = true ↔ d = e := by
  obtain ⟨hvalid, rfl⟩ := canonical_iff.1 hd
  obtain ⟨hvalid', rfl⟩ := canonical_iff.1 he
  exact (beq_iff_eq (a := d.iso) (b := e.iso)).trans (hvalid.iso_inj hvalid')

end Date

namespace Processor

variable {v w : Value} {d e : Date} {args : Arguments}

/-- Equal values are the same day. -/
theorem eq_of_beq_dates (hv : dateOf v = some d) (hw : dateOf w = some e) (h : (v == w) = true) :
    d = e := by
  obtain ⟨s, rfl, -⟩ := dateOf_eq_some.1 hv
  obtain ⟨t, rfl, -⟩ := dateOf_eq_some.1 hw
  obtain rfl : s = t := beq_iff_eq.1 h
  exact Option.some.inj (hv.symm.trans hw)

/-- A date that has been parsed is canonical. -/
theorem canonical_parseDate (h : Run.issuesOf "date/parse" (parseDate v args) = []) :
    ∃ d : Date, d.Canonical (parseDate v args).value := by
  unfold parseDate at h ⊢
  dsimp only at h ⊢
  split at h
  · next d hd =>
    refine ⟨d, Date.canonical_iff.2 ⟨?_, rfl⟩⟩
    obtain ⟨s, -, hd⟩ := Option.bind_eq_some_iff.1 hd
    rw [dateOfText, Option.orElse_eq_orElse, Option.orElse_eq_or, Option.or_eq_some_iff] at hd
    rcases hd with hd | ⟨-, hd⟩
    · exact Date.valid_of_read hd
    · exact Date.valid_of_readTimestamp hd
  · cases h

end Processor

/-! ## The phases before the steps -/

/-- How many phases precede the steps that are no format step. -/
def Pipeline.opening (p : Pipeline) : Nat := p.format.toList.length + 1

namespace Run

variable {id : TrackerId} {r : Run} {k : Tracker}

theorem check_clean {key : String} {accepts : Value → Bool} (hk : r.tree.get? id = some k)
    (h : (check key accepts id r).hasIssues id = false) :
    k.issues = [] ∧ k.value.any accepts = true ∧ check key accepts id r = r := by
  unfold check at h ⊢
  rw [value?_of_get? hk] at h ⊢
  cases hany : k.value.any accepts with
  | true =>
    rw [hany, if_pos rfl, hasIssues_of_get? hk] at h
    exact ⟨by simpa [Tracker.hasIssues] using h, rfl, if_pos rfl⟩
  | false =>
    rw [hany, if_neg Bool.false_ne_true] at h
    have hget : (r.record id (.of key [])).tree.get? id = some (k.record (.of key [])) := by
      rw [record, mapTree, TrackerTree.record, TrackerTree.get?_update_self, hk, Option.map_some]
    rw [hasIssues_of_get? hget, Tracker.hasIssues_record] at h
    cases h

/-- The format step of a pipeline, if it has one. -/
def formatStep (p : Pipeline) : Stage := p.format.elim pass runStep

/-- A pipeline goes on with its steps where nothing is wrong after the inspection. -/
theorem runPipeline_of_clean {p : Pipeline} {inspect convert : Stage}
    (hformat : (formatStep p id r).hasIssues id = false)
    (hinspect : (inspect id (formatStep p id r)).hasIssues id = false) :
    runPipeline p inspect convert id r =
      runSteps convert p.steps id (inspect id (formatStep p id r)) := by
  have hinspected : ∀ r : Run, (inspect id r).hasIssues id = false →
      andThen inspect (runSteps convert p.steps) id r =
        runSteps convert p.steps id (inspect id r) :=
    fun r h => if_neg (h ▸ Bool.false_ne_true)
  unfold formatStep at hformat hinspect ⊢
  unfold runPipeline
  cases hp : p.format with
  | none =>
    rw [hp] at hinspect
    exact hinspected r hinspect
  | some s =>
    rw [hp] at hformat hinspect
    exact (if_neg (hformat ▸ Bool.false_ne_true)).trans (hinspected _ hinspect)

/-- What is on the tracker after the format step: what was there, or what the step has made of
it. -/
theorem get?_formatStep (p : Pipeline) {v : Value} (hk : r.tree.get? id = some k)
    (hv : k.value = some v) (hclean : k.issues = []) :
    ∃ l w, (formatStep p id r).tree.get? id = some l ∧ l.value = some w ∧
      (p.format = none → w = v) ∧
      ∀ s, p.format = some s → ∃ args, (s.processor.run v args).value = w ∧
        issuesOf s.processor.key (s.processor.run v args) = l.issues := by
  unfold formatStep
  cases hp : p.format with
  | none => exact ⟨k, v, hk, hv, fun _ => rfl, nofun⟩
  | some s =>
    have hget := Applies.get?_runStep s hk
    rw [hv, hclean] at hget
    refine ⟨_, _, hget, rfl, nofun, fun s' hs => ?_⟩
    obtain rfl := Option.some.inj hs
    exact ⟨(r.operands id s.args).1, rfl, rfl⟩

end Run

namespace Entity

open Run

section

variable {e : Entity} {id : TrackerId} {r : Run} {k : Tracker} {v : Value}

/-- The phases up to the inspection. -/
theorem after_opening (e : Entity) (id : TrackerId) (r : Run) :
    e.after (Pipeline.ofSteps e.source.pipeline).opening id r =
      Phase.inspect.run e.body id
        (formatStep (Pipeline.ofSteps e.source.pipeline) id (r.enter id)) := by
  have hstep : ∀ s, (Phase.step s).run e.body = runStep s := fun s => by cases e.body <;> rfl
  unfold after Chain.phases Pipeline.phases Pipeline.opening formatStep
  cases (Pipeline.ofSteps e.source.pipeline).format with
  | none => rfl
  | some s =>
    show Phase.inspect.run e.body id ((Phase.step s).run e.body id (r.enter id)) = _
    rw [hstep]
    rfl

/-- What the format step and the check of the kind let pass is a date, and is what the format step
has made of the value, or the value itself.  The other steps follow. -/
theorem opened_date (h : FitsBody e.source e.body) (hkind : e.source.kind = .date)
    (hk : r.tree.get? id = some k) (hv : k.value = some v) (hclean : k.issues = [])
    (hopened : (e.after (Pipeline.ofSteps e.source.pipeline).opening id r).hasIssues id = false) :
    let p := Pipeline.ofSteps e.source.pipeline
    let opened := e.after p.opening id r
    behave e.body id r =
        (runSteps (writeDate e.source.props.outputFormat) p.steps id opened).leave ∧
      ∃ w d, opened.value? id = some w ∧ Processor.dateOf w = some d ∧
        (p.format = none → w = v) ∧
        ∀ s, p.format = some s → ∃ args, (s.processor.run v args).value = w ∧
          issuesOf s.processor.key (s.processor.run v args) = [] := by
  intro p opened
  have hbody := h.of_date hkind
  have hafter : opened = check "date/type" isDate id (formatStep p id (r.enter id)) := by
    refine (after_opening e id r).trans ?_
    rw [hbody]
    rfl
  have hbehave : behave e.body id r = (runPipeline p (check "date/type" isDate)
      (writeDate e.source.props.outputFormat) id (r.enter id)).leave := by
    rw [hbody]
    rfl
  obtain ⟨l, w, hl, hw, hnone, hsome⟩ :=
    get?_formatStep p (show (r.enter id).tree.get? id = some k from hk) hv hclean
  have hchecked :
      (check "date/type" isDate id (formatStep p id (r.enter id))).hasIssues id = false :=
    hafter ▸ hopened
  obtain ⟨hissues, hdate, heq⟩ := check_clean hl hchecked
  have hformat : (formatStep p id (r.enter id)).hasIssues id = false := by
    rw [← heq]
    exact hchecked
  refine ⟨?_, ?_⟩
  · rw [hbehave, runPipeline_of_clean hformat hchecked, hafter]
  · rw [hw] at hdate
    obtain ⟨d, hd⟩ := Option.isSome_iff_exists.1 hdate
    refine ⟨w, d, ?_, hd, hnone, fun s hs => ?_⟩
    · rw [hafter, heq, value?_of_get? hl, hw]
    · rw [← hissues]
      exact hsome s hs

/-! ## The main result -/

/-- The run on a value that is there when the format step and the inspection are over. -/
def opened (e : Entity) : Stage := fun id r =>
  e.after (Pipeline.ofSteps e.source.pipeline).opening id (e.face id r)

/-- Wherever a date is processed, in a tree that the standard mapper has compiled: if the format
step and the check of the kind have recorded no issue, the other steps follow, and what they find
is a text in one of the spellings of the date that it is read as.  A format step that parses dates
leaves the canonical text; without a format step it is the text that was given.  Two values that
are equal are the same day, and canonical ones are equal if they are the same day. -/
theorem canonical_dates {c : Chain} {root : Entity} (hc : Mapper.standard.compile c = .ok root)
    (he : e.Within root) (hkind : e.source.kind = .date) (hk : r.tree.get? id = some k)
    (hclean : k.issues = []) (hv : e.tracked id r = some v)
    (hallowed : e.source.props.forbidden = false)
    (hopened : (e.opened id r).hasIssues id = false) :
    let p := Pipeline.ofSteps e.source.pipeline
    e.process id r =
        (runSteps (writeDate e.source.props.outputFormat) p.steps id (e.opened id r)).leave ∧
      ∃ s d, (e.opened id r).value? id = some (.str s) ∧
        Processor.dateOf (.str s) = some d ∧ d.Valid ∧ d.Spells s.toList ∧
        (∀ step, p.format = some step →
          Table.get? Registry.standard "date/parse" = some step.processor → d.Canonical (.str s)) ∧
        (p.format = none → v = .str s) ∧
        ∀ w d', Processor.dateOf w = some d' →
          ((Value.str s == w) = true → d = d') ∧
          (d.Canonical (.str s) → d'.Canonical w → ((Value.str s == w) = true ↔ d = d')) := by
  intro p
  obtain ⟨hfits, own, harranged⟩ := he.arranged hc
  have hface := face_puts (e := e) hk hclean
  rw [hv] at hface
  have hprocess := process_eq_behave hk hclean hv hallowed
  obtain ⟨hbehave, w, d, hw, hd, hnone, hsome⟩ :=
    opened_date hfits.body hkind (hface.get? hk) rfl rfl hopened
  obtain ⟨s, rfl, hvalid, hspells⟩ := Processor.dateOf_eq_some.1 hd
  refine ⟨hprocess.trans hbehave, s, d, hw, hd, hvalid, hspells, fun step hstep hparse => ?_,
    fun hformat => (hnone hformat).symm,
    fun w d' hw => ⟨Processor.eq_of_beq_dates hd hw, fun h h' => h.beq_iff h'⟩⟩
  have hprocessor : step.processor = .format "date/parse" Processor.parseDate :=
    (Option.some.inj hparse).symm
  obtain ⟨args, hrun, hissues⟩ := hsome step hstep
  rw [hprocessor] at hrun hissues
  -- the canonical text is read as the date that it was written for, which is this one
  obtain ⟨d', hcanonical⟩ := Processor.canonical_parseDate hissues
  rw [show (Processor.parseDate v args).value = .str s from hrun] at hcanonical
  exact Option.some.inj (hcanonical.reads.symm.trans hd) ▸ hcanonical

end

/-! ## A date in another spelling -/

/-- A date. -/
def plainDate : Chain := Schema.date { registry := Registry.standard }

/-- A date that is parsed. -/
def parsedDate : Chain :=
  .mk .date {} [⟨.format "date/parse" Processor.parseDate, [], true⟩] Registry.standard

theorem parseDate_plainDate : plainDate.parseDate = .ok parsedDate := rfl

/-- What a date without a default compiles to. -/
def ofDate (c : Chain) : Entity :=
  .mk 0 c none (.behaviour (.ofSteps c.pipeline) (.date c.props.outputFormat))

theorem canonical_dates_parsed :
    let e := ofDate parsedDate
    let r := Run.ofValue (some (.str "2021-3-5"))
    plainDate.parseDate = .ok parsedDate ∧ Mapper.standard.compile parsedDate = .ok e ∧
      (e.process 0 r).isValid = true ∧
      ∃ s d, (e.opened 0 r).value? 0 = some (.str s) ∧ Date.Canonical d (.str s) := by
  intro e r
  have hcompiled : Mapper.standard.compile parsedDate = .ok e := rfl
  have hwithin : e.Within e := ⟨[], e, rfl, .inl rfl⟩
  have hopened : (e.opened 0 r).hasIssues 0 = false := by decide +kernel
  have hroot : r.tree.get? 0 = some { value := some (.str "2021-3-5") } := rfl
  obtain ⟨-, s, d, hs, -, -, -, hparsed, -⟩ :=
    canonical_dates hcompiled hwithin rfl hroot rfl rfl rfl hopened
  exact ⟨parseDate_plainDate, hcompiled, by decide +kernel, s, d, hs, hparsed _ rfl rfl⟩

/-- A date in another spelling stays so: it passes, is the day that it spells, and is not equal to
the canonical text of that day. -/
theorem spelled_date :
    let e := ofDate plainDate
    let r := Run.ofValue (some (.str "2021-3-5"))
    plainDate.Built Registry.standard ∧ Mapper.standard.compile plainDate = .ok e ∧
      (e.process 0 r).isValid = true ∧ (e.opened 0 r).hasIssues 0 = false ∧
      ((e.opened 0 r).value? 0 == some (.str "2021-3-5")) = true ∧
      Processor.dateOf (.str "2021-3-5") = some ⟨2021, 3, 5⟩ ∧
      Processor.dateOf (.str "2021-03-05") = some ⟨2021, 3, 5⟩ ∧
      (Value.str "2021-3-5" == .str "2021-03-05") = false ∧
      ¬ ∃ d : Date, d.Canonical (.str "2021-3-5") := by
  intro e r
  refine ⟨.start fun _ => rfl, rfl, by decide +kernel, by decide +kernel, by decide +kernel,
    by decide +kernel, by decide +kernel, by decide +kernel, ?_⟩
  rintro ⟨d, hreads, hwrites⟩
  have hd : Processor.dateOf (.str "2021-3-5") = some ⟨2021, 3, 5⟩ := by decide +kernel
  obtain rfl := Option.some.inj (hreads.symm.trans hd)
  rw [Date.write_isoPattern] at hwrites
  exact absurd (Value.str.inj (Option.some.inj hwrites)) (by decide +kernel)

end Entity

end Intake
