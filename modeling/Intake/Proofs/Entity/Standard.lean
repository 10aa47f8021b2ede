import Intake.Proofs.Entity.Fits
import Intake.Proofs.Processor.Standard
/-!
# Standard entities

A standard entity fits its chain, and its pipeline names standard processors only, a format step
at most in the first place.  So is every entity that the standard mapper makes of a chain that was
built over the standard registry (`standard_of_built`).

What a standard entity makes of an untouched tracker is one of two things (`Standard.makes`): it
has stopped before the children were put together, and then there are none, or it has made what
its kind asks for, and the steps have kept it (`Made`).
-/

namespace Intake

namespace Chain

theorem Built.at? {registry : Registry} {c inner : Chain} (h : Built registry c)
    {segments : List String} (hinner : c.at? segments = some inner) : Built registry inner := by
  induction segments generalizing c with
  | nil => exact Option.some.inj hinner ▸ h
  | cons s rest ih =>
    rw [Chain.at?, Option.bind_eq_some_iff] at hinner
    obtain ⟨child, hchild, hinner⟩ := hinner
    exact ih (h.wellFormed.held hchild) hinner

end Chain

namespace Entity

structure Standard (e : Entity) : Prop where
  fits : e.Fits
  pipeline : (Pipeline.ofSteps e.source.pipeline).Registered Registry.standard

/-- What the standard mapper makes of a chain that was built over the standard registry. -/
theorem standard_of_built {c : Chain} (hc : c.Built Registry.standard) {e : Entity}
    (h : Mapper.standard.compile c = .ok e) : e.Throughout Standard := by
  obtain ⟨rfl, hfits⟩ := Mapper.compile_fits h
  intro segments inner hinner
  exact ⟨hfits segments inner hinner, (hc.at? (hfits.source_at? hinner)).pipeline_registered⟩

end Entity

/-! ## Standard steps -/

namespace Tracker

/-- No issue of the tracker speaks for children. -/
def Quiet (k : Tracker) : Prop := ∀ issue ∈ k.issues, Issue.speaksFor issue.key = false

/-- Processing has stopped before there were children. -/
structure Stopped (k : Tracker) : Prop where
  children : k.children = []
  quiet : k.Quiet
  issues : k.hasIssues = true

/-- What a standard step may do: put a string in the place of a string, and record issues that no
list or object records. -/
structure Treated (k l : Tracker) : Prop where
  children : l.children = k.children
  issues : ∃ new, l.issues = k.issues ++ new ∧ ∀ issue ∈ new, Issue.ofComposite issue.key = false
  value : l.value = some (k.value.getD .null) ∨
    ∃ a b, k.value = some (.str a) ∧ l.value = some (.str b)

variable {k l : Tracker}

theorem quiet_of_nil (h : k.issues = []) : k.Quiet := by
  rw [Quiet, h]
  exact List.forall_mem_nil _

theorem Quiet.treated (h : k.Quiet) (hkl : Treated k l) : l.Quiet := by
  obtain ⟨new, hnew, hquiet⟩ := hkl.issues
  intro issue hissue
  rw [hnew] at hissue
  rcases List.mem_append.1 hissue with hissue | hissue
  · exact h issue hissue
  · exact Issue.speaksFor_eq_false (hquiet issue hissue)

theorem Quiet.record (h : k.Quiet) {key : String} (hkey : Issue.speaksFor key = false)
    (args : List (String × Value)) : (k.record (.of key args)).Quiet := by
  intro issue hissue
  rcases List.mem_append.1 hissue with hissue | hissue
  · exact h issue hissue
  · rw [List.mem_singleton.1 hissue]
    exact hkey

theorem hasIssues_iff : k.hasIssues = true ↔ k.issues ≠ [] := by
  rw [Tracker.hasIssues, Bool.not_eq_true', List.isEmpty_eq_false_iff]

theorem hasIssues_record (issue : Issue) : (k.record issue).hasIssues = true := by
  exact hasIssues_iff.2 (List.append_ne_nil_of_right_ne_nil _ (List.cons_ne_nil _ _))

theorem Stopped.record (hchildren : k.children = []) (hquiet : k.Quiet) {key : String}
    (hkey : Issue.speaksFor key = false) (args : List (String × Value)) :
    (k.record (.of key args)).Stopped :=
  ⟨hchildren, hquiet.record hkey args, hasIssues_record _⟩

end Tracker

namespace Change

open Tracker

variable {k l : Tracker} {s : CompiledStep}

theorem step_treated (hs : s.processor.isFormat = false ∧
      ∃ key, Table.get? Registry.standard key = some s.processor) (h : step s k l) :
    Treated k l := by
  obtain ⟨hformat, key, hkey⟩ := hs
  have hregular := Processor.regular_of_standard hkey
  obtain ⟨args, rfl⟩ := h
  refine ⟨rfl, ⟨_, rfl, hregular.silent _ args⟩, ?_⟩
  rcases hregular.keeps hformat (k.value.getD .null) args with hv | ⟨a, b, ha, hb⟩
  · exact .inl (congrArg some hv)
  · cases hk : k.value with
    | none =>
      rw [hk] at ha
      cases ha
    | some v =>
      rw [hk] at ha hb
      exact .inr ⟨a, b, congrArg some ha, congrArg some hb⟩

/-- After a format step there is an issue, or a single value. -/
theorem step_format (hs : s.processor.isFormat = true ∧
      ∃ key, Table.get? Registry.standard key = some s.processor) (hquiet : k.Quiet)
    (h : step s k l) :
    l.children = k.children ∧ l.Quiet ∧
      (l.hasIssues = true ∨ l.value.any Value.isComposite = false) := by
  obtain ⟨hformat, key, hkey⟩ := hs
  have hregular := Processor.regular_of_standard hkey
  obtain ⟨args, rfl⟩ := h
  refine ⟨rfl, fun issue hissue => ?_, ?_⟩
  · rcases List.mem_append.1 hissue with hissue | hissue
    · exact hquiet issue hissue
    · exact Issue.speaksFor_eq_false (hregular.silent _ args issue hissue)
  · rcases hregular.reads hformat (k.value.getD .null) args with hne | hnone
    · exact .inl (hasIssues_iff.2 (List.append_ne_nil_of_right_ne_nil _ hne))
    · exact .inr hnone

/-- A standard pipeline stops before the children, or keeps what the inspection makes. -/
theorem pipeline_made {Q : Tracker → Prop} {p : Pipeline} (hp : p.Registered Registry.standard)
    {inspect convert : Change} (h : pipeline p inspect convert k l) (hchildren : k.children = [])
    (hissues : k.issues = [])
    (inspected : ∀ k' l', k'.children = [] → k'.Quiet →
      (k'.value = k.value ∨ k'.value.any Value.isComposite = false) →
      inspect k' l' → l'.Stopped ∨ Q l')
    (treated : ∀ k' l', Q k' → Treated k' l' → Q l')
    (converted : ∀ k' l', Q k' → convert k' l' → Q l') : l.Stopped ∨ Q l := by
  have hquiet : k.Quiet := quiet_of_nil hissues
  -- who has stopped does not go on
  have running : ∀ {k' : Tracker}, k'.Stopped ∨ Q k' → k'.hasIssues = false → Q k' := by
    intro k' hk' hi
    rcases hk' with hstop | hQ
    · exact absurd (hstop.issues.symm.trans hi) nofun
    · exact hQ
  refine pipeline_keeps (P := fun k' => k'.children = [] ∧ k'.Quiet ∧
      (k'.hasIssues = true ∨ k'.value = k.value ∨
        k'.value.any Value.isComposite = false)) (Q := fun k' => k'.Stopped ∨ Q k')
    h ⟨hchildren, hquiet, .inr (.inl rfl)⟩ (by rw [Tracker.hasIssues, hissues]; rfl) ?_ ?_ ?_ ?_ ?_
  · intro s hs k' l' hk' _ hstep
    obtain ⟨hc, hq, hread⟩ := step_format (hp.format s hs) hk'.2.1 hstep
    exact ⟨hc.trans hk'.1, hq, hread.imp_right .inr⟩
  · intro k' hk' hi
    exact .inl ⟨hk'.1, hk'.2.1, hi⟩
  · intro k' l' hk' hi hinspect
    refine inspected k' l' hk'.1 hk'.2.1 (hk'.2.2.resolve_left fun ht => ?_) hinspect
    exact absurd (ht.symm.trans hi) nofun
  · intro s hs k' l' hk' hi hstep
    exact .inr (treated k' l' (running hk' hi) (step_treated (hp.steps s hs) hstep))
  · intro k' l' hk' hi hconvert
    exact .inr (converted k' l' (running hk' hi) hconvert)

end Change

end Intake
