import Intake.Run
import Intake.Proofs.Chain.Built
/-!
# Where steps are placed

A chain keeps the steps that it has accepted: the prioritized ones first, the latest of them at the
front, then the others in the order in which they came.  A step is refused exactly if it would
leave a format step anywhere but at the front, so that a run can take the format step apart and
still go through the steps in their order.

    Assembled registry accepted c → c.pipeline = arranged accepted ∧ ¬ Misplaced c.pipeline

`format_place` says that what is accepted keeps format steps in front; `misplaced_of_misplacement`
is the converse, that nothing is refused without need.
-/

namespace Intake

/-- A step as it runs. -/
def Step.compiled (s : Step) : CompiledStep := ⟨s.processor, s.args⟩

namespace Chain

/-- Accepted steps as a pipeline has them, given in the order in which they were accepted. -/
def arranged (accepted : List Step) : List Step :=
  (accepted.filter (·.prioritize)).reverse ++ accepted.filter (!·.prioritize)

/-- A format step stands behind another step. -/
def Misplaced (steps : List Step) : Prop :=
  ∃ i s, steps[i]? = some s ∧ s.isFormat = true ∧ i ≠ 0

/-- A chain over a registry that has been configured in any way, with the steps that it has
accepted in the meantime. -/
inductive Assembled (registry : Registry) : List Step → Chain → Prop
  | start (kind : Kind) : Assembled registry [] (.ofKind kind registry)
  | mapProps {accepted : List Step} {c : Chain} (f : Props → Props)
      (h : Assembled registry accepted c) : Assembled registry accepted (c.mapProps f)
  | mapKind {accepted : List Step} {c : Chain} (f : Kind → Kind)
      (h : Assembled registry accepted c) : Assembled registry accepted (c.mapKind f)
  | addStep {accepted : List Step} {c c' : Chain} {key : String} {p : Processor}
      {args : List Operand} {prioritize : Bool} (h : Assembled registry accepted c)
      (hp : Table.get? registry key = some p) (h' : c.addStep key args prioritize = .ok c') :
      Assembled registry (accepted ++ [⟨p, args, prioritize⟩]) c'

/-! ## One step -/

theorem arranged_append (accepted : List Step) (s : Step) :
    arranged (accepted ++ [s]) = place (arranged accepted) s := by
  cases hs : s.prioritize <;> simp [arranged, place, hs]

/-- Behind the first step are the steps of the tail. -/
theorem misplaced_iff {steps : List Step} :
    Misplaced steps ↔ ∃ s ∈ steps.tail, s.isFormat = true := by
  constructor
  · rintro ⟨i, s, hs, hformat, hi⟩
    obtain ⟨j, rfl⟩ := Nat.exists_eq_succ_of_ne_zero hi
    rw [← List.getElem?_tail] at hs
    exact ⟨s, List.mem_of_getElem? hs, hformat⟩
  · rintro ⟨s, hs, hformat⟩
    obtain ⟨j, hj⟩ := List.mem_iff_getElem?.1 hs
    rw [List.getElem?_tail] at hj
    exact ⟨j + 1, s, hj, hformat, Nat.succ_ne_zero j⟩

theorem not_misplaced_iff {steps : List Step} :
    ¬ Misplaced steps ↔ ∀ s ∈ steps.tail, s.isFormat = false := by
  simp [misplaced_iff]

/-- What is refused would leave a format step behind another one. -/
theorem misplaced_of_misplacement {pipeline : List Step} {s : Step} {e : BuildError}
    (h : misplacement? pipeline s.processor s.prioritize = some e) :
    Misplaced (place pipeline s) := by
  have hfound : ∀ {existing}, formatStep? pipeline = some existing →
      existing ∈ pipeline ∧ existing.isFormat = true := by
    intro existing hf
    exact ⟨List.mem_of_find?_eq_some hf, List.find?_some hf⟩
  have hbehind : pipeline ≠ [] → s ∈ (pipeline ++ [s]).tail := by
    intro hne
    rw [List.tail_append_of_ne_nil hne]
    exact List.mem_append_right _ List.mem_cons_self
  rw [misplaced_iff, place]
  unfold misplacement? at h
  cases hformat : s.processor.isFormat with
  | true =>
    rw [hformat, if_pos rfl] at h
    cases hp : s.prioritize with
    | true =>
      -- the format step that is there moves back
      cases hf : formatStep? pipeline with
      | none => simp [hf, hp] at h
      | some existing => exact ⟨existing, by simpa using hfound hf⟩
    | false =>
      have hne : pipeline ≠ [] := by
        rintro rfl
        simp [formatStep?, hp] at h
      exact ⟨s, by simpa using hbehind hne, hformat⟩
  | false =>
    rw [hformat, if_neg Bool.false_ne_true] at h
    cases hp : s.prioritize with
    | false => simp [hp] at h
    | true =>
      cases hf : formatStep? pipeline with
      | none => simp [hf, hp] at h
      | some existing => exact ⟨existing, by simpa using hfound hf⟩

theorem misplacement_eq {pipeline : List Step} {p : Processor} {prioritize : Bool} {e : BuildError}
    (h : misplacement? pipeline p prioritize = some e) :
    ∃ key reason, e = .misplacedFormatStep key reason := by
  unfold misplacement? at h
  split at h
  · split at h
    · exact ⟨_, _, (Option.some.inj h).symm⟩
    · split at h
      · exact ⟨_, _, (Option.some.inj h).symm⟩
      · cases h
  · split at h
    · obtain ⟨existing, -, he⟩ := Option.map_eq_some_iff.1 h
      exact ⟨_, _, he.symm⟩
    · cases h

/-- A step of a registered processor is refused for its place, or placed. -/
theorem addStep_cases {c : Chain} {key : String} {p : Processor} (args : List Operand)
    (prioritize : Bool) (hp : Table.get? c.registry key = some p) :
    (∃ e, misplacement? c.pipeline p prioritize = some e ∧
      c.addStep key args prioritize = .error e) ∨
    (misplacement? c.pipeline p prioritize = none ∧
      c.addStep key args prioritize =
        .ok (.mk c.kind c.props (place c.pipeline ⟨p, args, prioritize⟩) c.registry)) := by
  obtain ⟨kind, props, pipeline, registry⟩ := c
  have hp : Table.get? registry key = some p := hp
  unfold Chain.addStep
  cases hm : misplacement? pipeline p prioritize with
  | none => exact .inr ⟨hm, by simp [hp, hm, Chain.kind, Chain.props, Chain.pipeline, Chain.registry]⟩
  | some e => exact .inl ⟨e, hm, by simp [hp, hm]⟩

/-- What is accepted is a step of a registered processor, and it has been placed. -/
theorem addStep_eq_ok {c c' : Chain} {key : String} {args : List Operand} {prioritize : Bool}
    (h : c.addStep key args prioritize = .ok c') :
    ∃ p, Table.get? c.registry key = some p ∧ misplacement? c.pipeline p prioritize = none ∧
      c' = .mk c.kind c.props (place c.pipeline ⟨p, args, prioritize⟩) c.registry := by
  cases hp : Table.get? c.registry key with
  | none =>
    obtain ⟨kind, props, pipeline, registry⟩ := c
    have hp : Table.get? registry key = none := hp
    simp [Chain.addStep, hp] at h
  | some p =>
    rcases addStep_cases args prioritize hp with ⟨e, -, he⟩ | ⟨hplace, he⟩
    · rw [he] at h
      cases h
    · rw [he] at h
      exact ⟨p, rfl, hplace, (Except.ok.inj h).symm⟩

namespace Assembled

variable {registry : Registry} {accepted : List Step} {c : Chain}

theorem registry_eq (h : Assembled registry accepted c) : c.registry = registry := by
  induction h with
  | start kind => rfl
  | @mapProps accepted c f h ih =>
    cases c
    exact ih
  | @mapKind accepted c f h ih =>
    cases c
    exact ih
  | @addStep accepted c c' key p args prioritize h hp h' ih =>
    obtain ⟨-, -, -, rfl⟩ := addStep_eq_ok h'
    exact ih

/-- The pipeline is what has been accepted, and its format steps are in front. -/
theorem pipeline_eq (h : Assembled registry accepted c) :
    c.pipeline = arranged accepted ∧ ∀ s ∈ c.pipeline.tail, s.isFormat = false := by
  induction h with
  | start kind => exact ⟨rfl, by simp [Chain.pipeline, ofKind]⟩
  | @mapProps accepted c f h ih =>
    cases c
    exact ih
  | @mapKind accepted c f h ih =>
    cases c
    exact ih
  | @addStep accepted c c' key p args prioritize h hp h' ih =>
    obtain ⟨hpipeline, hformat⟩ := ih
    obtain ⟨q, hq, hplace, rfl⟩ := addStep_eq_ok h'
    obtain rfl := Option.some.inj (hp.symm.trans (h.registry_eq ▸ hq))
    refine ⟨?_, format_place hformat hplace⟩
    rw [arranged_append, ← hpipeline]
    rfl

end Assembled

end Chain

/-! ## The pipeline as it runs -/

/-- Format steps in front are taken apart, and the other steps stay. -/
theorem Pipeline.ofSteps_eq {steps : List Step} (h : ∀ s ∈ steps.tail, s.isFormat = false) :
    (ofSteps steps).format.toList = (steps.filter (·.isFormat)).map Step.compiled ∧
    (ofSteps steps).steps = (steps.filter (!·.isFormat)).map Step.compiled := by
  cases steps with
  | nil => exact ⟨rfl, rfl⟩
  | cons first rest =>
    have hnone : rest.filter (·.isFormat) = [] := by
      simpa [List.filter_eq_nil_iff] using h
    have hall : rest.filter (!·.isFormat) = rest := by
      simpa [List.filter_eq_self] using h
    cases hfirst : first.isFormat with
    | true =>
      have hfirst' : first.processor.isFormat = true := hfirst
      simp [ofSteps, hfirst, hfirst', hnone, hall, Step.compiled]
    | false =>
      have hfirst' : first.processor.isFormat = false := hfirst
      simp [ofSteps, hfirst, hfirst', hnone, hall, Step.compiled]

namespace Run

theorem runSteps_eq (last : Stage) (steps : List CompiledStep) :
    runSteps last steps = (steps.map runStep).foldr andThen last := by
  induction steps with
  | nil => rfl
  | cons s rest ih => rw [runSteps, ih, List.map_cons, List.foldr_cons]

/-- A pipeline runs its format step, the kind's inspection, the other steps, and the kind's
conversion, as long as there are no issues. -/
theorem runPipeline_eq (p : Pipeline) (inspect convert : Stage) :
    runPipeline p inspect convert =
      (p.format.toList.map runStep ++ inspect :: p.steps.map runStep).foldr andThen convert := by
  unfold runPipeline
  cases p.format <;> simp [runSteps_eq]

end Run

/-! ## The main result -/

namespace Chain

/-- However a chain has been configured: its pipeline is the prioritized steps that it has
accepted, the latest first, and then the others, the oldest first.  No format step is behind
another step, so that compiling takes the format step apart, and a run goes through the pipeline in
its order, with the kind's inspection after the format step and its conversion at the end.  A step
of a registered processor is refused for its place exactly if it would leave a format step behind
another step, and otherwise it is placed. -/
theorem pipeline_of_assembled {registry : Registry} {accepted : List Step} {c : Chain}
    (h : Assembled registry accepted c) :
    c.pipeline = (accepted.filter (·.prioritize)).reverse ++ accepted.filter (!·.prioritize) ∧
    ¬ Misplaced c.pipeline ∧
    (Pipeline.ofSteps c.pipeline).format.toList =
      (c.pipeline.filter (·.isFormat)).map Step.compiled ∧
    (Pipeline.ofSteps c.pipeline).steps = (c.pipeline.filter (!·.isFormat)).map Step.compiled ∧
    (Pipeline.ofSteps c.pipeline).toList = c.pipeline.map Step.compiled ∧
    (∀ inspect convert, Run.runPipeline (.ofSteps c.pipeline) inspect convert =
      ((c.pipeline.filter (·.isFormat)).map (Run.runStep ·.compiled) ++
        inspect :: (c.pipeline.filter (!·.isFormat)).map (Run.runStep ·.compiled)).foldr
          Run.andThen convert) ∧
    ∀ key p, Table.get? registry key = some p → ∀ args prioritize,
      ((∃ k reason, c.addStep key args prioritize = .error (.misplacedFormatStep k reason)) ↔
        Misplaced (place c.pipeline ⟨p, args, prioritize⟩)) ∧
      (¬ Misplaced (place c.pipeline ⟨p, args, prioritize⟩) →
        ∃ c', c.addStep key args prioritize = .ok c' ∧
          c'.pipeline = place c.pipeline ⟨p, args, prioritize⟩) := by
  obtain ⟨hpipeline, hformat⟩ := h.pipeline_eq
  obtain ⟨hfirst, hsteps⟩ := Pipeline.ofSteps_eq hformat
  refine ⟨hpipeline, not_misplaced_iff.2 hformat, hfirst, hsteps, Pipeline.toList_ofSteps _, ?_, ?_⟩
  · intro inspect convert
    rw [Run.runPipeline_eq, hfirst, hsteps, List.map_map, List.map_map]
    rfl
  · intro key p hp args prioritize
    rcases addStep_cases args prioritize (h.registry_eq ▸ hp) with ⟨e, he, hadd⟩ | ⟨hnone, hadd⟩
    · have hmis := misplaced_of_misplacement (s := ⟨p, args, prioritize⟩) he
      obtain ⟨k, reason, rfl⟩ := misplacement_eq he
      exact ⟨⟨fun _ => hmis, fun _ => ⟨k, reason, hadd⟩⟩, fun hnot => absurd hmis hnot⟩
    · have hnot : ¬ Misplaced (place c.pipeline ⟨p, args, prioritize⟩) :=
        not_misplaced_iff.2 (format_place hformat hnone)
      refine ⟨⟨?_, fun hmis => absurd hmis hnot⟩, fun _ => ⟨_, hadd, rfl⟩⟩
      rintro ⟨k, reason, hrefused⟩
      rw [hadd] at hrefused
      cases hrefused

/-- A check, and a format step in front of it. -/
def lengthCheck : Processor := .step "text/short" fun v _ => .pass v

def unquote : Processor := .format "text/unquote" fun v _ => .pass v

def quotes : Registry := [("short", lengthCheck), ("unquote", unquote)]

/-- The check came first, but the format step was prioritized. -/
def unquoted : Chain :=
  .mk .string {} [⟨unquote, [], true⟩, ⟨lengthCheck, [], false⟩] quotes

theorem pipeline_of_assembled_unquoted :
    Assembled quotes [⟨lengthCheck, [], false⟩, ⟨unquote, [], true⟩] unquoted ∧
    ¬ Misplaced unquoted.pipeline ∧
    ∃ k reason, unquoted.addStep "short" [] true = .error (.misplacedFormatStep k reason) := by
  have hshort : Table.get? quotes "short" = some lengthCheck := rfl
  have hunquote : Table.get? quotes "unquote" = some unquote := rfl
  have hchecked : Assembled quotes [⟨lengthCheck, [], false⟩]
      (.mk .string {} [⟨lengthCheck, [], false⟩] quotes) := .addStep (.start .string) hshort rfl
  have h : Assembled quotes [⟨lengthCheck, [], false⟩, ⟨unquote, [], true⟩] unquoted :=
    .addStep hchecked hunquote rfl
  obtain ⟨-, hleads, -, -, -, -, hadd⟩ := pipeline_of_assembled h
  exact ⟨h, hleads, (hadd "short" lengthCheck hshort [] true).1.2 ⟨1, _, rfl, rfl, by decide⟩⟩

end Chain

end Intake
