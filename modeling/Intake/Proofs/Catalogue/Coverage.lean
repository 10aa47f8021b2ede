import Intake.Catalogue.Standard
import Intake.Proofs.Catalogue.Template
import Intake.Proofs.Run.FailingChildren
import Intake.Proofs.Run.Origins
import Intake.Proofs.Value.Members
/-!
# Messages for every issue

The standard catalogue has a template for every issue of a run over the standard registry, and the
issue has an argument for every name of the template.  So no message is a bare key, and none has a
brace of its template left:

    Catalogue.standard.render issue = Template.substitute (the texts of its arguments) template

Keys and names of arguments are fixed texts of the processors (`stepKeys`) and the kinds, and the
catalogue is a table, so whether they agree is computed (`explains`).  What has to be proved is that
an issue has one of these keys with its arguments.
-/

namespace Intake

namespace Catalogue

/-- Whether there is a template for a key that names none but some arguments. -/
def explains (c : Catalogue) (key : String) (args : List String) : Bool :=
  (Table.get? c.messages key).any fun template => (Template.names template).all (args.contains ·)

/-- An issue has a template, and an argument for every name of it. -/
def Covers (c : Catalogue) (issue : Issue) : Prop :=
  ∃ template, Table.get? c.messages issue.key = some template ∧
    ∀ name ∈ Template.names template, ∃ v, Value.lookup? name issue.args = some v

variable {c : Catalogue} {key : String} {args : List (String × Value)}

theorem covers_of_explains (h : c.explains key (args.map (·.1)) = true) :
    c.Covers (.of key args) := by
  unfold explains at h
  cases htemplate : Table.get? c.messages key with
  | none =>
    rw [htemplate] at h
    cases h
  | some template =>
    rw [htemplate, Option.any_some, List.all_eq_true] at h
    refine ⟨template, htemplate, fun name hname => Option.ne_none_iff_exists'.1 fun hnone => ?_⟩
    refine Value.lookup?_eq_none_iff.1 hnone (Value.mem_keys_sortMembers.2 ?_)
    exact List.contains_iff_mem.1 (h name hname)

/-- The message of a covered issue is its template with every name replaced. -/
theorem Covers.render_eq {issue : Issue} {template : String}
    (htemplate : Table.get? c.messages issue.key = some template)
    (hnames : ∀ name ∈ Template.names template, ∃ v, Value.lookup? name issue.args = some v) :
    c.render issue = Template.substitute
      (fun name => ((Value.lookup? name issue.args).map messageText).getD "") template := by
  unfold render
  rw [htemplate]
  refine Template.fill_eq_substitute fun name hname => ?_
  obtain ⟨v, hv⟩ := hnames name hname
  rw [hv]
  rfl

end Catalogue

/-! ## Processors -/

theorem Issue.explains_stepKeys :
    ∀ entry ∈ stepKeys, Catalogue.standard.explains entry.1 entry.2 = true := by decide +kernel

theorem StepResult.Known.covers {r : StepResult} (h : r.Known) (key : String) :
    ∀ issue ∈ Run.issuesOf key r, Catalogue.standard.Covers issue := by
  intro issue hissue
  cases h with
  | pass => cases hissue
  | reject h =>
    rw [issuesOf_reject, List.mem_singleton] at hissue
    rw [hissue]
    exact Catalogue.covers_of_explains (Issue.explains_stepKeys _ h)

namespace Processor

/-- All that a processor complains of is known. -/
def Known (p : Processor) : Prop := ∀ v args, (p.run v args).Known

theorem Known.of_check {key : String} {run : Value → Arguments → StepResult}
    (h : ∀ v args, StepResult.Checks v (run v args)) : Known (.step key run) :=
  fun v args => (h v args).known

theorem Known.of_format {key : String} {run : Value → Arguments → StepResult}
    (h : ∀ v args, StepResult.Reads (run v args)) : Known (.format key run) :=
  fun v args => (h v args).known

theorem Known.of_text {key : String} (f : List Char → List Char) :
    Known (.step key (onText f)) := by
  intro v args
  cases v with
  | str s => exact .pass
  | _ => exact .reject (by simp [Issue.stepKeys])

theorem known_of_standard {key : String} {p : Processor}
    (h : Table.get? Registry.standard key = some p) : p.Known := by
  have hall : ∀ p ∈ choice ++ texts ++ numbers ++ truth ++ dates ++ lists, p.Known := by
    simp only [choice, texts, numbers, truth, dates, lists, List.forall_mem_append,
      List.forall_mem_cons]
    refine ⟨⟨⟨⟨⟨?choice, ?texts⟩, ?numbers⟩, ?truth⟩, ?dates⟩, ?lists⟩
    case choice => exact ⟨.of_check equals_checks, .of_check oneOf_checks, List.forall_mem_nil _⟩
    case texts =>
      exact ⟨.of_text _, .of_text _, .of_text _, .of_check notEmpty_checks,
        .of_check (checkLength_checks (by decide)), .of_check (checkLength_checks (by decide)),
        List.forall_mem_nil _⟩
    case numbers =>
      exact ⟨.of_format parseNumber_reads, .of_check (checkNumber_checks (by decide)),
        .of_check (checkNumber_checks (by decide)), .of_check wholeNumber_checks,
        List.forall_mem_nil _⟩
    case truth => exact ⟨.of_format parseTruth_reads, List.forall_mem_nil _⟩
    case dates =>
      exact ⟨.of_format parseDate_reads, .of_check (checkDate_checks (by decide)),
        .of_check (checkDate_checks (by decide)), List.forall_mem_nil _⟩
    case lists =>
      exact ⟨.of_check (checkCount_checks (by decide)), .of_check (checkCount_checks (by decide)),
        .of_check unique_checks, List.forall_mem_nil _⟩
  exact hall p (mem_of_standard h)

end Processor

/-! ## Runs -/

/-- An issue of an entity with a standard pipeline is in the standard catalogue. -/
theorem Issue.Origin.covers {pipeline : List Step}
    (hp : ∀ s ∈ pipeline, ∃ key, Table.get? Registry.standard key = some s.processor)
    {issue : Issue} (h : issue.Origin pipeline) : Catalogue.standard.Covers issue := by
  have hbare : ∀ key ∈ bareKeys, Catalogue.standard.explains key [] = true := by decide +kernel
  have hnaming : ∀ entry ∈ namingKeys, Catalogue.standard.explains entry.1 [entry.2] = true := by
    decide +kernel
  cases h with
  | bare h => exact Catalogue.covers_of_explains (hbare _ h)
  | naming h => exact Catalogue.covers_of_explains (hnaming _ h)
  | step hs h =>
    obtain ⟨key, hkey⟩ := hp _ hs
    exact (Processor.known_of_standard hkey _ _).covers _ _ h

namespace Run

/-- Every issue of a run over the standard registry is in the standard catalogue. -/
theorem covers_of_mem {c : Chain} (hc : c.Built Registry.standard) {e : Entity}
    (h : Mapper.standard.compile c = .ok e) {input : Option Value} {x : LocatedIssue}
    (hx : x ∈ (e.run input).allIssues) : Catalogue.standard.Covers x.issue := by
  obtain ⟨inner, segments, hinner, -, horigin⟩ := exists_origin h input hx
  exact horigin.covers (hc.at? hinner).wellFormed.registered

/-- Every issue of a run has a template of the standard catalogue and an argument for every name
of it, and its message is the template with the text of the argument in the place of every name. -/
theorem standard_messages {c : Chain} (hc : c.Built Registry.standard) {e : Entity}
    (h : Mapper.standard.compile c = .ok e) (input : Option Value) :
    ∀ x ∈ (e.run input).allIssues, ∃ template,
      Table.get? Catalogue.standard.messages x.issue.key = some template ∧
      (∀ name ∈ Template.names template, ∃ v, Value.lookup? name x.issue.args = some v) ∧
      Catalogue.standard.render x.issue = Template.substitute
        (fun name => ((Value.lookup? name x.issue.args).map Catalogue.messageText).getD "")
        template := by
  intro x hx
  obtain ⟨template, htemplate, hnames⟩ := covers_of_mem hc h hx
  exact ⟨template, htemplate, hnames, Catalogue.Covers.render_eq htemplate hnames⟩

/-- The list and the object of the scores speak for the text among the numbers. -/
theorem standard_messages_scores :
    scoring.Built Registry.standard ∧ Mapper.standard.compile scoring = .ok scorer ∧
    (scorer.run scores).allIssues.map (Catalogue.standard.renderLocated ·) =
      ["value: has invalid fields: scores", "scores: has invalid items at 1",
        "scores.1: must be a number"] ∧
    ∀ x ∈ (scorer.run scores).allIssues, ∃ template,
      Table.get? Catalogue.standard.messages x.issue.key = some template ∧
      (∀ name ∈ Template.names template, ∃ v, Value.lookup? name x.issue.args = some v) ∧
      Catalogue.standard.render x.issue = Template.substitute
        (fun name => ((Value.lookup? name x.issue.args).map Catalogue.messageText).getD "")
        template :=
  ⟨built_scoring, compile_scoring, by decide +kernel,
    standard_messages built_scoring compile_scoring scores⟩

end Run

end Intake
