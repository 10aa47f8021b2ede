import Intake.Proofs.Date.Rendering
import Intake.Proofs.Entity.Inner
import Intake.Proofs.Run.CanonicalDates
/-!
# Output formats of dates

A date may have an output format.  One that is no pattern makes the chain fail to compile.  The
others are accepted, and where a pipeline ends without an issue, the date that has been reached is
written in its format, provided that the pattern asks for nothing that a plain date does not have
(`Date.canWrite`); a pattern that does is passed over, and the text stays in the form of pipelines
(`output_formats`).  A pattern of a time of day is accepted, but never written (`clock_format`).

Under the standard processors what is reached is always a date: the one that was there when the
kind was checked.
-/

namespace Intake

namespace Run

variable {id : TrackerId} {r : Run}

/-- The date of a value that is kept by the processors of some steps is there after them. -/
theorem dateOf_through {body : Body} {steps : List CompiledStep} {d : Date}
    (h : ∀ s ∈ steps, s.processor.isFormat = false ∧ s.processor.KeepsDates)
    (hd : (r.value? id).bind Processor.dateOf = some d) :
    ((Phase.through body (steps.map .step) id r).value? id).bind Processor.dateOf = some d := by
  induction steps generalizing r with
  | nil => exact hd
  | cons s rest ih =>
    obtain ⟨⟨hformat, hkeeps⟩, hrest⟩ := List.forall_mem_cons.1 h
    have hstep : (Phase.step s).run body id r = runStep s id r := by
      cases body <;> rfl
    -- a step that fails keeps the date as well, so the issues do not matter
    refine ih hrest (r := (Phase.step s).run body id r) ?_
    obtain ⟨v, hv, hd⟩ := Option.bind_eq_some_iff.1 hd
    obtain ⟨k, hk, hvalue⟩ := Option.bind_eq_some_iff.1 hv
    have hget := Applies.get?_runStep s hk
    rw [hstep, value?_of_get? hget, hvalue]
    exact hkeeps hformat v _ d hd

theorem value?_writeDate {pattern : String} {v : Value} {d : Date} (hv : r.value? id = some v)
    (hd : Processor.dateOf v = some d) :
    (writeDate (some pattern) id r).value? id =
      some (((d.write pattern).map Value.str).getD v) := by
  obtain ⟨k, hk, -⟩ := Option.bind_eq_some_iff.1 hv
  have hdate : ((r.value? id).bind Value.asString?).bind Date.readIso = some d := by
    rw [hv]
    exact hd
  rw [writeDate_eq]
  dsimp only
  rw [hdate, Option.bind_some]
  cases d.write pattern with
  | none => exact hv
  | some text => exact value?_setValue (TrackerTree.lt_size_of_get? hk) _

end Run

namespace Entity

open Run

variable {e : Entity} {id : TrackerId} {r : Run} {k : Tracker} {v : Value}

/-- The run on a value that is there when only the conversion is to come. -/
def reached (e : Entity) : Stage := fun id r =>
  e.after (Pipeline.ofSteps e.source.pipeline).phases.length id (e.face id r)

/-- The conversion comes after the inspection. -/
theorem opening_le (p : Pipeline) : p.opening ≤ p.phases.length := by
  rw [Pipeline.opening, Pipeline.phases, List.length_append, List.length_map, List.length_cons]
  omega

theorem reached_eq (e : Entity) (id : TrackerId) (r : Run) :
    e.reached id r = Phase.through e.body
      ((Pipeline.ofSteps e.source.pipeline).steps.map .step) id (e.opened id r) := by
  unfold reached opened after Chain.phases Pipeline.phases Pipeline.opening
  cases (Pipeline.ofSteps e.source.pipeline).format with
  | none => simp [Phase.through]
  | some s => simp [Phase.through]

/-- Where the value of an entity ends without an issue, the conversion has been reached, and there
have been no issues at any time. -/
theorem process_of_clean (hfits : e.Fits) (hkind : ∀ name, e.source.kind ≠ .custom name)
    (hk : r.tree.get? id = some k) (hclean : k.issues = []) (hv : e.tracked id r = some v)
    (hallowed : e.source.props.forbidden = false)
    (hend : (e.process id r).hasIssues id = false) :
    (∀ m ≤ (Pipeline.ofSteps e.source.pipeline).phases.length,
        (e.after m id (e.face id r)).hasIssues id = false) ∧
      e.process id r = (Phase.convert.run e.body id (e.reached id r)).leave := by
  have hface := face_puts (e := e) hk hclean
  have hprocess := process_eq_behave hk hclean hv hallowed
  rw [behave_phases hfits.body hkind] at hprocess
  have hentered : ((e.face id r).enter id).hasIssues id = false := hasIssues_of_get? (hface.get? hk)
  obtain ⟨n, phase, hphase, hbefore, hlast, hn⟩ :=
    exists_last e.body (Pipeline.ofSteps e.source.pipeline).phases .convert hentered
  rw [hprocess] at hend ⊢
  -- the last phase is the conversion, or it has left issues
  rcases hn with ⟨rfl, rfl⟩ | hissues
  · exact ⟨hbefore, congrArg Run.leave hlast⟩
  · exact absurd (hissues.symm.trans hend) (by decide)

/-- A date with another output format compiles if that is a pattern, and is refused for it
otherwise. -/
theorem compile_withOutputFormat {source : Chain} (hkind : source.kind = .date)
    (hpresence : Chain.presenceConflict? source.props = none) (pattern : String) :
    if Date.isPattern pattern then
      ∃ e, Mapper.standard.compile (source.withOutputFormat pattern) = .ok e
    else Mapper.standard.compile (source.withOutputFormat pattern) =
      .error (.invalidOption source.displayName "output_format"
        s!"'{pattern}' is not a valid strftime format") := by
  obtain ⟨kind, props, pipeline, registry⟩ := source
  have hends := Mapper.compile_date
    (c := (Chain.mk kind props pipeline registry).withOutputFormat pattern) hkind hpresence
  rw [Chain.checkOutputFormat_eq rfl] at hends
  cases hcompiled : Mapper.standard.compile
      ((Chain.mk kind props pipeline registry).withOutputFormat pattern) with
  | ok e =>
    rw [hcompiled] at hends
    split
    · exact ⟨e, rfl⟩
    · next hpattern =>
      rw [if_neg hpattern] at hends
      cases hends
  | error e =>
    rw [hcompiled] at hends
    split
    · next hpattern =>
      rw [if_pos hpattern] at hends
      cases hends
    · next hpattern =>
      rw [if_neg hpattern] at hends
      exact congrArg _ (Except.error.inj hends).symm

/-- A date with an output format compiles if that is a pattern. -/
theorem compile_ofDate {pattern : String} (h : Date.isPattern pattern = true) :
    Mapper.standard.compile (plainDate.withOutputFormat pattern) =
      .ok (ofDate (plainDate.withOutputFormat pattern)) := by
  have hformat : (plainDate.withOutputFormat pattern).checkOutputFormat = .ok () := by
    rw [Chain.checkOutputFormat_eq rfl, if_pos h]
  have hkind : Mapper.standard.compileKind .date (plainDate.withOutputFormat pattern) none 1 =
      .ok ((ofDate (plainDate.withOutputFormat pattern)).body, 1) :=
    CompileM.bind_eq_ok.2 ⟨(), 1, CompileM.ofExcept_eq_ok.2 ⟨hformat, rfl⟩, rfl⟩
  refine Mapper.compile_eq_ok.2 ⟨1, ?_⟩
  exact CompileM.bind_eq_ok.2 ⟨(), 0, rfl, CompileM.bind_eq_ok.2 ⟨0, 1, rfl,
    CompileM.bind_eq_ok.2 ⟨none, 1, rfl, CompileM.bind_eq_ok.2 ⟨_, 1, hkind, rfl⟩⟩⟩⟩

/-! ## The main result -/

/-- Wherever a date with an output format ends without an issue, in a tree that the standard mapper
has compiled: the format is a pattern, and had it not been one, the chain would have been refused
for it.  The conversion has been reached without an issue.  If the text there is that of a date,
and the pattern asks for nothing that a plain date does not have, the value is the date written in
the pattern, which is defined for every date; with any other pattern the text stays as it is.  If
the chain was built over the standard registry, the text is that of a date, the one that the format
step and the check of the kind have let pass. -/
theorem output_formats {c : Chain} {root : Entity} (hc : Mapper.standard.compile c = .ok root)
    (he : e.Within root) (hkind : e.source.kind = .date) {pattern : String}
    (hformat : e.source.props.outputFormat = some pattern) (hk : r.tree.get? id = some k)
    (hclean : k.issues = []) (hv : e.tracked id r = some v)
    (hallowed : e.source.props.forbidden = false)
    (hend : (e.process id r).hasIssues id = false) :
    Date.isPattern pattern = true ∧
      (∀ other, if Date.isPattern other then
          ∃ e', Mapper.standard.compile (e.source.withOutputFormat other) = .ok e'
        else Mapper.standard.compile (e.source.withOutputFormat other) =
          .error (.invalidOption e.source.displayName "output_format"
            s!"'{other}' is not a valid strftime format")) ∧
      (e.reached id r).hasIssues id = false ∧
      e.process id r = (writeDate (some pattern) id (e.reached id r)).leave ∧
      (∀ w d, (e.reached id r).value? id = some w → Processor.dateOf w = some d →
        (Date.canWrite pattern = true → ∃ text, d.write pattern = some text ∧
          (e.process id r).value? id = some (.str text)) ∧
        (Date.canWrite pattern = false → d.write pattern = none ∧
          (e.process id r).value? id = some w)) ∧
      (c.Built Registry.standard → ∃ d : Date,
        ((e.opened id r).value? id).bind Processor.dateOf = some d ∧
        ((e.reached id r).value? id).bind Processor.dateOf = some d) := by
  obtain ⟨hfits, own, harranged⟩ := he.arranged hc
  have hbody := hfits.body.of_date hkind
  rw [hformat] at hbody
  obtain ⟨hbefore, hprocess⟩ :=
    process_of_clean hfits (by rw [hkind]; exact nofun) hk hclean hv hallowed hend
  have hconvert : e.process id r = (writeDate (some pattern) id (e.reached id r)).leave := by
    rw [hprocess, hbody]
    rfl
  refine ⟨he.isPattern hc hkind hformat, compile_withOutputFormat hkind hfits.presence,
    hbefore _ (Nat.le_refl _), hconvert, fun w d hw hd => ?_, fun hbuilt => ?_⟩
  · have hvalue : (e.process id r).value? id = some (((d.write pattern).map Value.str).getD w) := by
      rw [hconvert]
      exact value?_writeDate hw hd
    have hsome := Date.isSome_write d pattern
    cases hwrite : d.write pattern with
    | none =>
      rw [hwrite] at hvalue hsome
      exact ⟨fun h => absurd (hsome.trans h) Bool.false_ne_true, fun _ => ⟨rfl, hvalue⟩⟩
    | some text =>
      rw [hwrite] at hvalue hsome
      exact ⟨fun _ => ⟨text, rfl, hvalue⟩,
        fun h => absurd (h.symm.trans hsome.symm) Bool.false_ne_true⟩
  · obtain ⟨segments, hat⟩ := he.address hc (by rw [hkind]; exact nofun)
    have hstandard := standard_of_built hbuilt hc segments e hat
    have hface := face_puts (e := e) hk hclean
    rw [hv] at hface
    have hopened : (e.opened id r).hasIssues id = false :=
      hbefore _ (opening_le _)
    obtain ⟨-, w, d, hw, hd, -⟩ := opened_date hfits.body hkind (hface.get? hk) rfl rfl hopened
    have hdate : ((e.opened id r).value? id).bind Processor.dateOf = some d :=
      Option.bind_eq_some_iff.2 ⟨w, hw, hd⟩
    refine ⟨d, hdate, ?_⟩
    rw [reached_eq]
    refine dateOf_through (fun s hs => ?_) hdate
    obtain ⟨hstep, key, hprocessor⟩ := hstandard.pipeline.steps s hs
    exact ⟨hstep, Processor.keepsDates_of_standard hprocessor⟩

theorem output_formats_day :
    let c := plainDate.withOutputFormat "%-d.%-m.%Y"
    let e := ofDate c
    let r := Run.ofValue (some (.str "2021-03-05"))
    c.Built Registry.standard ∧ Mapper.standard.compile c = .ok e ∧
      (e.process 0 r).isValid = true ∧ Date.canWrite "%-d.%-m.%Y" = true ∧
      ∃ d : Date, ∃ text, d.write "%-d.%-m.%Y" = some text ∧
        (e.process 0 r).value? 0 = some (.str text) := by
  intro c e r
  have hbuilt : c.Built Registry.standard := .configure _ (.start fun _ => rfl)
  have hwithin : e.Within e := ⟨[], e, rfl, .inl rfl⟩
  have hroot : r.tree.get? 0 = some { value := some (.str "2021-03-05") } := rfl
  have hwritten : Date.canWrite "%-d.%-m.%Y" = true := by decide +kernel
  have hcompiled : Mapper.standard.compile c = .ok e :=
    compile_ofDate (Date.isPattern_of_canWrite hwritten)
  obtain ⟨-, -, -, -, hwrites, hdate⟩ := output_formats hcompiled hwithin rfl rfl hroot rfl rfl rfl
    (show (e.process 0 r).hasIssues 0 = false by decide +kernel)
  obtain ⟨d, -, hd⟩ := hdate hbuilt
  obtain ⟨w, hw, hd⟩ := Option.bind_eq_some_iff.1 hd
  obtain ⟨text, htext⟩ := (hwrites w d hw hd).1 hwritten
  exact ⟨hbuilt, hcompiled, by decide +kernel, hwritten, d, text, htext⟩

/-- A pattern of a time of day is accepted, and the text of the date is left as it is. -/
theorem clock_format :
    let c := plainDate.withOutputFormat "%H:%M"
    let e := ofDate c
    let r := Run.ofValue (some (.str "2021-03-05"))
    c.Built Registry.standard ∧ Mapper.standard.compile c = .ok e ∧
      Date.isPattern "%H:%M" = true ∧ Date.canWrite "%H:%M" = false ∧
      Processor.dateOf (.str "2021-03-05") = some ⟨2021, 3, 5⟩ ∧
      Date.write ⟨2021, 3, 5⟩ "%H:%M" = none ∧ (e.process 0 r).isValid = true ∧
      ((e.process 0 r).value? 0 == some (.str "2021-03-05")) = true := by
  intro c e r
  have hpattern : Date.isPattern "%H:%M" = true := by decide +kernel
  exact ⟨.configure _ (.start fun _ => rfl), compile_ofDate hpattern, hpattern, by decide +kernel,
    by decide +kernel, by decide +kernel, by decide +kernel, by decide +kernel⟩

end Entity

end Intake
