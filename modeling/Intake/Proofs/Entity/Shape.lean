import Intake.Proofs.Chain.Built
import Intake.Proofs.Entity.Fits
/-!
# The shape of what entities make

Whatever the processors of its pipeline do, what a fitting entity makes of an untouched tracker has
no children or those that its kind declares, and no issue of scheduling but what a processor of
its own gives out under that key:

    e.Fits → k.Untouched → e.Makes parts k l → l.Shaped e.source.kind.Admits e.source.pipeline

Every stage of `Entity.process` keeps this; only the inspection of a list or an object adds
children.
-/

namespace Intake

/-- The names that the children of a tracker may have by the kind of its chain: none, those of the
declared fields, or the indexes of some items. -/
def Kind.Admits (kind : Kind) (names : List String) : Prop :=
  names = [] ∨
    match kind with
    | .object fields => names = fields.map (·.1)
    | .array (some _) => ∃ n, names = (List.range n).map toString
    | _ => False

/-- An issue of scheduling comes from a processor, if there is one at all. -/
def Issue.Scheduled (pipeline : List Step) (issue : Issue) : Prop :=
  issue.key = "object/schedule" →
    ∃ s ∈ pipeline, ∃ value args, issue ∈ (s.processor.run value args).issues

/-- The names of the children are admitted, and issues of scheduling come from processors. -/
structure Tracker.Shaped (admits : List String → Prop) (pipeline : List Step) (k : Tracker) :
    Prop where
  children : admits (Table.names k.children)
  issues : ∀ issue ∈ k.issues, issue.Scheduled pipeline

namespace Tracker.Shaped

variable {admits admits' : List String → Prop} {pipeline : List Step} {k l : Tracker}

theorem mono (h : k.Shaped admits pipeline) (hadmits : ∀ names, admits names → admits' names) :
    k.Shaped admits' pipeline :=
  ⟨hadmits _ h.children, h.issues⟩

/-- More issues are recorded. -/
theorem add (h : k.Shaped admits pipeline) (hchildren : l.children = k.children)
    {new : List Issue} (hissues : l.issues = k.issues ++ new)
    (hnew : ∀ issue ∈ new, issue.Scheduled pipeline) : l.Shaped admits pipeline := by
  refine ⟨hchildren ▸ h.children, fun issue hissue => ?_⟩
  rw [hissues] at hissue
  rcases List.mem_append.1 hissue with hissue | hissue
  · exact h.issues issue hissue
  · exact hnew issue hissue

theorem record (h : k.Shaped admits pipeline) {key : String} (hkey : key ≠ "object/schedule") :
    (k.record (.of key [])).Shaped admits pipeline := by
  refine h.add (l := k.record (.of key [])) rfl rfl fun issue hissue hscheduled => ?_
  rw [List.mem_singleton.1 hissue] at hscheduled
  exact absurd hscheduled hkey

theorem setValue (h : k.Shaped admits pipeline) (v : Option Value) :
    (k.setValue v).Shaped admits pipeline :=
  ⟨h.children, h.issues⟩

theorem claim (h : k.Shaped admits pipeline) (n : Nat) : (k.claim n).Shaped admits pipeline :=
  ⟨h.children, h.issues⟩

end Tracker.Shaped

theorem scheduled_of_naming {pipeline : List Step} {key : String} (hkey : key ≠ "object/schedule")
    {arg : String} {values : List Value} : ∀ issue ∈ naming key arg values,
      issue.Scheduled pipeline := by
  intro issue hissue hscheduled
  unfold naming at hissue
  split at hissue
  · cases hissue
  · rw [List.mem_singleton.1 hissue] at hscheduled
    exact absurd hscheduled hkey

/-! ## Stages -/

namespace Change

open Entity

variable {admits : List String → Prop} {parts : String → Part} {source : Chain} {body : Body}
  {k l : Tracker}

/-- A step records what its processor gives out, or that it has failed. -/
theorem step_shaped {pipeline : List Step} {s : CompiledStep}
    (hs : s ∈ (Pipeline.ofSteps pipeline).toList) (hk : k.Shaped admits pipeline)
    (h : step s k l) : l.Shaped admits pipeline := by
  rw [Pipeline.toList_ofSteps] at hs
  obtain ⟨own, hown, rfl⟩ := List.mem_map.1 hs
  obtain ⟨args, rfl⟩ := h
  refine hk.add rfl rfl fun issue hissue hscheduled => ?_
  unfold Run.issuesOf at hissue
  split at hissue
  · rw [List.mem_singleton.1 hissue] at hscheduled
    exact absurd hscheduled (show "generic/failed" ≠ "object/schedule" by decide)
  · exact ⟨own, hown, _, args, hissue⟩

/-- A pipeline adds children where it inspects. -/
theorem pipeline_shaped {steps : List Step} {inspect convert : Change}
    (hnone : admits []) (hk : k.Shaped (· = []) steps) (hissues : k.hasIssues = false)
    (inspected : ∀ k l, k.Shaped (· = []) steps → inspect k l → l.Shaped admits steps)
    (converted : ∀ k l, k.Shaped admits steps → convert k l → l.Shaped admits steps)
    (h : pipeline (.ofSteps steps) inspect convert k l) : l.Shaped admits steps := by
  refine pipeline_keeps (P := (·.Shaped (· = []) steps)) h hk hissues
    (fun s hs k l hk _ h => step_shaped ?_ hk h) (fun k hk _ => hk.mono fun _ hn => hn ▸ hnone)
    (fun k l hk _ => inspected k l hk) (fun s hs k l hk _ h => step_shaped ?_ hk h)
    (fun k l hk _ => converted k l hk)
  · exact List.mem_append_left _ (by simp [hs])
  · exact List.mem_append_right _ hs

/-- The kind of a fitting behaviour admits the children that its inspection attaches. -/
theorem inspects_shaped {pipeline : Pipeline} {hooks : Hooks}
    (hbody : FitsBody source (.behaviour pipeline hooks))
    (hk : k.Shaped (· = []) source.pipeline) (h : inspects parts hooks k l) :
    l.Shaped source.kind.Admits source.pipeline := by
  cases h.inspected with
  | kept _ _ => exact hk.mono fun _ => .inl
  | refused check _ =>
    refine (hk.record ?_).mono fun _ => .inl
    rintro rfl
    exact absurd (Hooks.key_mem check) (by decide)
  | @items item values children _ hnames _ =>
    refine ⟨.inr ?_, (hk.add (l := listed parts values.length k) rfl rfl
      (scheduled_of_naming (by decide))).issues⟩
    generalize hkind : source.kind = kind
    cases hbody.fitted hkind
    exact ⟨values.length, hnames⟩
  | @members members schedule policy escaping input children _ hnames _ =>
    refine ⟨.inr ?_, (hk.add (l := assembled parts policy (members.map (·.1)) input k) rfl
      (List.append_assoc _ _ _) fun issue hissue => ?_).issues⟩
    · generalize hkind : source.kind = kind
      cases hbody.fitted hkind
      exact hnames.trans (Table.names_map _ members).symm
    · rcases List.mem_append.1 hissue with hissue | hissue
      · exact scheduled_of_naming (by decide) issue hissue
      · exact scheduled_of_naming (by decide) issue hissue
  | custom custom => exact absurd hbody FitsBody.not_custom

/-- What comes after the presence rules. -/
theorem behaves_shaped (hbody : FitsBody source body) (hk : k.Shaped (· = []) source.pipeline)
    (hissues : k.hasIssues = false) (h : behaves parts body k l) :
    l.Shaped source.kind.Admits source.pipeline := by
  have hnone : source.kind.Admits [] := .inl rfl
  cases body with
  | base =>
    obtain rfl : l = k := h
    exact hk.mono fun _ => .inl
  | reference path pipeline =>
    obtain rfl := hbody.pipeline_eq rfl
    refine pipeline_shaped hnone hk hissues (fun k l hk hkl => ?_) (fun k l hk hkl => ?_) h
    · obtain rfl : l = k := hkl
      exact hk.mono fun _ => .inl
    · obtain rfl : l = k := hkl
      exact hk
  | behaviour pipeline hooks =>
    obtain rfl := hbody.pipeline_eq rfl
    refine pipeline_shaped hnone hk hissues (fun k l => inspects_shaped hbody)
      (fun k l hk hkl => ?_) h
    obtain rfl : l = _ := hkl
    exact hk.setValue _

/-- The presence rules leave no children, or let the kind make its own. -/
theorem judges_shaped (hbody : FitsBody source body) (hk : k.Shaped (· = []) source.pipeline)
    (hissues : k.hasIssues = false) (h : judges parts source body k l) :
    l.Shaped source.kind.Admits source.pipeline := by
  have bare : l.Shaped (· = []) source.pipeline → l.Shaped source.kind.Admits source.pipeline :=
    fun hl => hl.mono fun _ => .inl
  cases h.judged with
  | missing _ _ => exact bare (hk.record (by decide))
  | substituted _ _ h =>
    obtain ⟨v, rfl | ⟨n, rfl⟩⟩ := substitutes_eq h
    · exact bare (hk.setValue v)
    · exact bare ((hk.claim n).setValue v)
  | forbidden _ _ => exact bare (hk.record (by decide))
  | behaved _ _ h => exact behaves_shaped hbody hk hissues h

end Change

/-! ## The main result -/

/-- What a fitting entity makes of an untouched tracker. -/
theorem Entity.Makes.shaped {parts : String → Part} {e : Entity} {k l : Tracker}
    (h : e.Makes parts k l) (hfits : e.Fits) (hk : k.Untouched) :
    l.Shaped e.source.kind.Admits e.source.pipeline := by
  obtain ⟨m, hreplaces, hjudges⟩ := h
  obtain ⟨v, rfl⟩ := Change.replaces_eq hreplaces
  have hshaped : k.Shaped (· = []) e.source.pipeline := by
    refine ⟨?_, fun issue hissue => ?_⟩
    · rw [hk.children]
      rfl
    · rw [hk.issues] at hissue
      cases hissue
  refine Change.judges_shaped hfits.body ((hshaped.claim e.id).setValue v) ?_ hjudges
  show (!k.issues.isEmpty) = false
  rw [hk.issues]
  rfl

end Intake
