import Intake.Outcome
import Intake.Proofs.Entity.Shape
import Intake.Proofs.Run.Children
/-!
# Where issues come from

An entity that fits its chain records an issue in three ways only (`Issue.Origin`): an issue without
arguments, of a presence rule or a type; one that names children or keys; or what a step of its own
pipeline gives out.  So every issue that is collected after a run has such an origin at the
address of its tracker:

    m.compile c = .ok e → ∀ x ∈ (e.run input).allIssues, ∃ inner, x.issue.Origin inner.source.pipeline

Every stage of `Entity.process` keeps this of the tracker that it changes.
-/

namespace Intake

/-- The issues of the presence rules and of the types. -/
def Issue.bareKeys : List String :=
  ["generic/required", "generic/forbidden", "string/type", "number/type", "boolean/type",
    "date/type", "array/type", "object/type"]

theorem Issue.typeKeys_subset : typeKeys ⊆ bareKeys := by decide

/-- The issues of lists and objects that name something, and under which argument. -/
def Issue.namingKeys : List (String × String) :=
  [("array/items", "indexes"), ("object/members", "fields"), ("object/unknown-keys", "keys")]

/-- How an issue may be recorded by the entity of a chain with some pipeline. -/
inductive Issue.Origin (pipeline : List Step) : Issue → Prop
  | bare {key : String} (h : key ∈ bareKeys) : Origin pipeline (.of key [])
  | naming {key arg : String} {values : List Value} (h : (key, arg) ∈ namingKeys) :
      Origin pipeline (.of key [(arg, .list values)])
  | step {issue : Issue} {s : Step} (hs : s ∈ pipeline) {value : Value} {args : Arguments}
      (h : issue ∈ Run.issuesOf s.processor.key (s.processor.run value args)) :
      Origin pipeline issue

/-- Every issue of the tracker has an origin. -/
def Tracker.Traced (pipeline : List Step) (k : Tracker) : Prop :=
  ∀ issue ∈ k.issues, issue.Origin pipeline

namespace Tracker.Traced

variable {pipeline : List Step} {k l : Tracker}

theorem append (h : k.Traced pipeline) {new : List Issue} (hl : l.issues = k.issues ++ new)
    (hnew : ∀ issue ∈ new, issue.Origin pipeline) : l.Traced pipeline := by
  intro issue hissue
  rw [hl] at hissue
  rcases List.mem_append.1 hissue with hissue | hissue
  · exact h issue hissue
  · exact hnew issue hissue

theorem record (h : k.Traced pipeline) {key : String} (hkey : key ∈ Issue.bareKeys) :
    (k.record (.of key [])).Traced pipeline := by
  refine h.append (l := k.record (.of key [])) rfl fun issue hissue => ?_
  rw [List.mem_singleton.1 hissue]
  exact .bare hkey

end Tracker.Traced

theorem origin_of_naming {pipeline : List Step} {key arg : String}
    (h : (key, arg) ∈ Issue.namingKeys) {values : List Value} :
    ∀ issue ∈ naming key arg values, issue.Origin pipeline := by
  intro issue hissue
  unfold naming at hissue
  split at hissue
  · cases hissue
  · rw [List.mem_singleton.1 hissue]
    exact .naming h

/-! ## Stages -/

namespace Change

open Entity

variable {steps : List Step} {parts : String → Part} {source : Chain} {body : Body}
  {k l : Tracker}

theorem step_traced {s : CompiledStep} (hs : s ∈ (Pipeline.ofSteps steps).toList)
    (hk : k.Traced steps) (h : step s k l) : l.Traced steps := by
  rw [Pipeline.toList_ofSteps] at hs
  obtain ⟨own, hown, rfl⟩ := List.mem_map.1 hs
  obtain ⟨args, rfl⟩ := h
  exact hk.append rfl fun issue hissue => .step hown hissue

theorem pipeline_traced {inspect convert : Change} (hk : k.Traced steps)
    (hissues : k.hasIssues = false)
    (inspected : ∀ k l, k.Traced steps → inspect k l → l.Traced steps)
    (converted : ∀ k l, k.Traced steps → convert k l → l.Traced steps)
    (h : pipeline (.ofSteps steps) inspect convert k l) : l.Traced steps := by
  refine pipeline_keeps (P := (·.Traced steps)) h hk hissues
    (fun s hs k l hk _ h => step_traced ?_ hk h) (fun _ hk _ => hk)
    (fun k l hk _ => inspected k l hk) (fun s hs k l hk _ h => step_traced ?_ hk h)
    (fun k l hk _ => converted k l hk)
  · exact List.mem_append_left _ (by simp [hs])
  · exact List.mem_append_right _ hs

/-- The inspections of all kinds but custom ones. -/
theorem inspects_traced {hooks : Hooks} (hcustom : ∀ custom, hooks ≠ .custom custom)
    (hk : k.Traced steps) (h : inspects parts hooks k l) : l.Traced steps := by
  cases h.inspected with
  | kept _ _ => exact hk
  | refused check _ => exact hk.record (Issue.typeKeys_subset (Hooks.key_mem check))
  | items _ _ _ => exact hk.append (l := listed parts _ _) rfl (origin_of_naming (by decide))
  | members _ _ _ =>
    refine hk.append (l := assembled parts _ _ _ _) (List.append_assoc _ _ _)
      fun issue hissue => ?_
    rcases List.mem_append.1 hissue with hissue | hissue
    · exact origin_of_naming (by decide) issue hissue
    · exact origin_of_naming (by decide) issue hissue
  | custom custom => exact absurd rfl (hcustom custom)

theorem behaves_traced (hbody : FitsBody source body) (hk : k.Traced source.pipeline)
    (hissues : k.hasIssues = false) (h : behaves parts body k l) : l.Traced source.pipeline := by
  cases body with
  | base =>
    obtain rfl : l = k := h
    exact hk
  | reference path pipeline =>
    obtain rfl := hbody.pipeline_eq rfl
    refine pipeline_traced hk hissues (fun k l hk hkl => ?_) (fun k l hk hkl => ?_) h
    · obtain rfl : l = k := hkl
      exact hk
    · obtain rfl : l = k := hkl
      exact hk
  | behaviour pipeline hooks =>
    have hcustom : ∀ custom, hooks ≠ .custom custom := by
      rintro custom rfl
      exact FitsBody.not_custom hbody
    obtain rfl := hbody.pipeline_eq rfl
    refine pipeline_traced hk hissues (fun k l => inspects_traced hcustom)
      (fun k l hk hkl => ?_) h
    obtain rfl : l = _ := hkl
    exact hk

theorem judges_traced (hbody : FitsBody source body) (hk : k.Traced source.pipeline)
    (hissues : k.hasIssues = false) (h : judges parts source body k l) :
    l.Traced source.pipeline := by
  cases h.judged with
  | missing _ _ => exact hk.record (by decide)
  | substituted _ _ h =>
    obtain ⟨v, rfl | ⟨n, rfl⟩⟩ := substitutes_eq h <;> exact hk
  | forbidden _ _ => exact hk.record (by decide)
  | behaved _ _ h => exact behaves_traced hbody hk hissues h

end Change

/-- What a fitting entity records on an untouched tracker. -/
theorem Entity.Makes.traced {parts : String → Part} {e : Entity} {k l : Tracker}
    (h : e.Makes parts k l) (hfits : e.Fits) (hk : k.Untouched) : l.Traced e.source.pipeline := by
  obtain ⟨m, hreplaces, hjudges⟩ := h
  obtain ⟨v, rfl⟩ := Change.replaces_eq hreplaces
  have htraced : k.Traced e.source.pipeline := by
    intro issue hissue
    rw [hk.issues] at hissue
    cases hissue
  refine Change.judges_traced hfits.body (k := (k.claim e.id).setValue v) htraced ?_ hjudges
  show (!k.issues.isEmpty) = false
  rw [hk.issues]
  rfl

/-! ## Collected issues -/

namespace TrackerTree

theorem mem_located {t : TrackerTree} {id : TrackerId} {x : LocatedIssue} :
    x ∈ t.located id ↔ ∃ k, t.get? id = some k ∧ x.issue ∈ k.issues ∧
      x.path = Path.dotted (t.pathOf id) := by
  unfold located
  cases t.get? id with
  | none => simp
  | some k =>
    have hissues : k.issues = [] ∨ k.hasIssues = true := by
      rw [Tracker.hasIssues]
      cases k.issues <;> simp
    rcases hissues with hnil | hissues
    · simp [Tracker.hasIssues, hnil]
    · obtain ⟨path, issue⟩ := x
      simp [hissues, eq_comm, and_comm]

end TrackerTree

/-- Every issue of a run has an origin at the address of its tracker. -/
theorem Run.exists_origin {c : Chain} {e : Entity} (h : Mapper.standard.compile c = .ok e)
    (input : Option Value) {x : LocatedIssue} (hx : x ∈ (e.run input).allIssues) :
    ∃ inner segments, c.at? segments = some inner ∧ x.path = Path.dotted segments ∧
      x.issue.Origin inner.pipeline := by
  obtain ⟨rfl, hfits⟩ := Mapper.compile_fits h
  obtain ⟨id, -, hx⟩ := List.mem_flatMap.1 hx
  obtain ⟨l, hl, hissue, hpath⟩ := TrackerTree.mem_located.1 hx
  obtain ⟨inner, k, hinner, hk, htold, -⟩ :=
    Entity.run_tracker (Mapper.compile_arranged h) input (TrackerTree.lt_size_of_get? hl)
  obtain ⟨raw, made⟩ := htold.makes hl
  exact ⟨inner.source, _, hfits.source_at? hinner, hpath,
    made.traced (hfits _ _ hinner) hk _ hissue⟩

end Intake
