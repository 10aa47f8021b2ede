import Intake.Proofs.Run.Growth
import Intake.Proofs.Tracker.Steady
/-!
# Runs in pace

Two runs, one on the tracker `i` and one on the tracker `j`, are `InPace` if each has worked at its
tracker only, if the two trackers resemble each other, and if as many steps have been executed in
both.  They stay so through all local stages, provided that the paths that are looked up are
`Agreed`.

Two entities that differ in their numbers alone are taken along stage by stage (`Takes`); what is
left is the inspection of a list or of an object, which may begin where there are no children yet.
-/

namespace Intake

open TrackerTree Run Entity

namespace Agrees

variable {paths : List Path} {i j : TrackerId} {Rel : Run → Run → Prop} {r s : Run}

/-- What local work keeps between two runs, it keeps together with what it keeps in each tree. -/
theorem and_trees {P Q : TrackerTree → Prop}
    (h : Agrees paths i j Rel) (hP : ∀ f t, Tracker.OnContent f → P t → P (t.update i f))
    (hQ : ∀ f t, Tracker.OnContent f → Q t → Q (t.update j f)) :
    Agrees paths i j fun r s => Rel r s ∧ P r.tree ∧ Q s.tree where
  value hrs := h.value hrs.1
  issues hrs := h.issues hrs.1
  touch hf hrs := ⟨h.touch hf hrs.1, hP _ _ hf hrs.2.1, hQ _ _ hf hrs.2.2⟩
  note he he' hrs := ⟨h.note he he' hrs.1, hrs.2⟩
  tally := by
    rintro n r r' s s' hr hs ⟨hrs, hr', hs'⟩
    exact ⟨h.tally hr hs hrs, hr.1 ▸ hr', hs.1 ▸ hs'⟩
  lookUp hpath hrs :=
    ⟨(h.lookUp hpath hrs.1).1, (h.lookUp hpath hrs.1).2, hrs.2⟩

theorem enter (h : Agrees paths i j Rel) (hrs : Rel r s) :
    Rel (r.enter i) (s.enter j) :=
  h.note rfl rfl (h.tally (n := 0) (r := r) (s := s) ⟨rfl, rfl, rfl⟩ ⟨rfl, rfl, rfl⟩ hrs)

theorem leave (h : Agrees paths i j Rel) (hrs : Rel r s) :
    Rel r.leave s.leave :=
  h.tally (n := 0) (r := r) (s := s) ⟨rfl, rfl, rfl⟩ ⟨rfl, rfl, rfl⟩ hrs

end Agrees

namespace Run

variable {R : List String → List String → Prop} {i j : TrackerId} {r₀ s₀ r s : Run}
  {own : Option String} {paths : List Path}

/-- Two runs have come from `r₀` and `s₀` by work on `i` and on `j`, which resemble each other, in
as many steps. -/
structure InPace (R : List String → List String → Prop) (i j : TrackerId) (r₀ s₀ r s : Run) :
    Prop where
  left : Advances i r₀ r
  right : Advances j s₀ s
  alike : r.tree.Resembles R s.tree i j
  steps : ∃ n, r.steps = r₀.steps + n ∧ s.steps = s₀.steps + n

namespace InPace

theorem refl (hl : r.tree.Linked) (hl' : s.tree.Linked) (h : r.tree.Resembles R s.tree i j) :
    InPace R i j r s r s :=
  ⟨.refl hl i, .refl hl' j, h, 0, rfl, rfl⟩

/-- What the two trackers carry changes alike. -/
theorem change (h : InPace R i j r₀ s₀ r s) {f g : Tracker → Tracker} (hf : Tracker.OnContent f)
    (hg : Tracker.OnContent g)
    (hfg : ∀ k l, Tracker.Resembles R k l → (f k).value = (g l).value ∧
      List.Forall₂ (Issue.Resembles R) (f k).issues (g l).issues) :
    InPace R i j r₀ s₀ (r.mapTree (·.update i f)) (s.mapTree (·.update j g)) where
  left := h.left.trans (.touch h.left.grows.linked i hf) (.inl rfl)
  right := h.right.trans (.touch h.right.grows.linked j hg) (.inl rfl)
  alike := h.alike.update h.left.grows.linked h.right.grows.linked hf.links hg.links hfg
  steps := h.steps

/-- What the two trackers carry changes in the same way. -/
theorem touch (h : InPace R i j r₀ s₀ r s) {f : Tracker → Tracker} (hf : Tracker.OnContent f) :
    InPace R i j r₀ s₀ (r.mapTree (·.update i f)) (s.mapTree (·.update j f)) := by
  obtain ⟨new, hnew⟩ := hf.issues
  refine h.change hf hf fun k l hkl => ⟨hf.value hkl.value, ?_⟩
  rw [hnew, hnew]
  exact List.rel_append hkl.issues (Tracker.resembles_issues new)

/-- Each run records an issue, and the two resemble each other. -/
theorem record (h : InPace R i j r₀ s₀ r s) {a b : Issue} (hab : Issue.Resembles R a b) :
    InPace R i j r₀ s₀ (r.record i a) (s.record j b) := by
  refine h.change (Tracker.onContent_record a) (Tracker.onContent_record b) fun k l hkl => ?_
  exact ⟨hkl.value, List.rel_append hkl.issues (.cons hab .nil)⟩

theorem note (h : InPace R i j r₀ s₀ r s) {event event' : Event} (he : event.tracker = i)
    (he' : event'.tracker = j) : InPace R i j r₀ s₀ (r.note event) (s.note event') where
  left := h.left.trans (.note h.left.grows.linked he) (.inl rfl)
  right := h.right.trans (.note h.right.grows.linked he') (.inl rfl)
  alike := h.alike
  steps := h.steps

/-- The runs take the trackers over for entities of any numbers. -/
theorem start (h : InPace R i j r₀ s₀ r s) (n n' : Nat) :
    InPace R i j r₀ s₀ (start n i r) (start n' j s) := by
  refine (h.change (Tracker.onContent_claim n) (Tracker.onContent_claim n') fun k l hkl => ?_).note
    rfl rfl
  exact ⟨hkl.value, hkl.issues⟩

/-- Looking up an agreed path gives the same. -/
theorem resolve_eq (hR : Shuffles R) (hl : r₀.tree.Linked) (hl' : s₀.tree.Linked)
    (hplaced : Placed own i r₀.tree ∧ Placed own j s₀.tree) {path : Path}
    (hagreed : Agreed own i j r₀.tree s₀.tree path) (h : InPace R i j r₀ s₀ r s) :
    r.tree.resolve i path = s.tree.resolve j path := by
  rcases hagreed with ⟨first, rest, hown, hpath⟩ | ⟨v, hleft, hright⟩
  · obtain ⟨p, hp⟩ := hplaced.1.grow hl h.left.grows first hown
    obtain ⟨q, hq⟩ := hplaced.2.grow hl' h.right.grows first hown
    rw [h.left.grows.linked.resolve_own hp hpath, h.right.grows.linked.resolve_own hq hpath]
    exact h.alike.value_eq hR rest
  · rw [hleft _ h.left.grows, hright _ h.right.grows]

theorem agrees (hR : Shuffles R) (hl : r₀.tree.Linked) (hl' : s₀.tree.Linked)
    (hplaced : Placed own i r₀.tree ∧ Placed own j s₀.tree)
    (hagreed : ∀ path ∈ paths, Agreed own i j r₀.tree s₀.tree path) :
    Agrees paths i j (InPace R i j r₀ s₀) where
  value h := h.alike.value?_eq
  issues h := h.alike.hasIssues_eq
  touch hf h := h.touch hf
  note he he' h := h.note he he'
  tally := by
    rintro n r r' s s' ⟨hrt, hre, hrn⟩ ⟨hst, hse, hsn⟩ h
    obtain ⟨m, hr, hs⟩ := h.steps
    refine ⟨(Advances.keeps [] i r₀).tally hrt hre h.left,
      (Advances.keeps [] j s₀).tally hst hse h.right, ?_, m + n, ?_, ?_⟩
    · rw [hrt, hst]
      exact h.alike
    · rw [hrn, hr, Nat.add_assoc]
    · rw [hsn, hs, Nat.add_assoc]
  lookUp hpath h :=
    ⟨h.resolve_eq hR hl hl' hplaced (hagreed _ hpath), h.note rfl rfl⟩

end InPace

/-! ## Stages side by side -/

/-- Where the runs are related by `Rel`, the stages leave them related by `Rel'`. -/
def Takes (Rel Rel' : Run → Run → Prop) (i j : TrackerId) (F G : Stage) : Prop :=
  ∀ r s, Rel r s → Rel' (F i r) (G j s)

namespace Takes

variable {Rel Rel' : Run → Run → Prop} {F F' G G' : Stage}

theorem of_local (h : Local (fun _ => False) paths F) (hRel : Agrees paths i j Rel) :
    Takes Rel Rel i j F F :=
  fun _ _ hrs => h.agrees hRel (fun _ hcore => hcore.elim) hrs

theorem weaken (h : Takes Rel Rel i j F G) (hweaken : ∀ r s, Rel r s → Rel' r s) :
    Takes Rel Rel' i j F G :=
  fun r s hrs => hweaken _ _ (h r s hrs)

theorem andThen {Rel'' : Run → Run → Prop} (hF : Takes Rel Rel' i j F F')
    (hG : Takes Rel' Rel'' i j G G') (hRel' : Agrees paths i j Rel')
    (hstop : ∀ r s, Rel' r s → Rel'' r s) :
    Takes Rel Rel'' i j (Run.andThen F G) (Run.andThen F' G') := by
  intro r s hrs
  exact andThen_agrees (fun _ _ => hRel'.issues) (hF r s hrs) hstop hG

section

variable (hRel : Agrees paths i j Rel) (hweaken : ∀ r s, Rel r s → Rel' r s)

include hRel hweaken

/-- A pipeline around inspections that differ. -/
theorem runPipeline (hRel' : Agrees paths i j Rel') {p : Pipeline}
    (hp : ∀ path ∈ p.references, path ∈ paths) (hF : Takes Rel Rel' i j F F') (hG : Local (fun _ => False) paths G) :
    Takes Rel Rel' i j (Run.runPipeline p F G) (Run.runPipeline p F' G) := by
  have hstep : ∀ s ∈ p.toList, ∀ path ∈ s.args.filterMap (·.path?), path ∈ paths :=
    fun s hs path hpath => hp path (List.mem_flatMap.2 ⟨s, hs, hpath⟩)
  have hsteps : Takes Rel' Rel' i j (Run.runSteps G p.steps) (Run.runSteps G p.steps) :=
    of_local (.runSteps hG fun s hs => hstep s (List.mem_append_right _ hs)) hRel'
  have hrest := hF.andThen hsteps hRel' fun _ _ h => h
  unfold Run.runPipeline
  cases hf : p.format with
  | none => exact hrest
  | some s =>
    have hformat : Takes Rel Rel i j (Run.runStep s) (Run.runStep s) :=
      of_local (.runStep s (hstep s (by simp [Pipeline.toList, hf]))) hRel
    exact hformat.andThen hrest hRel hweaken

/-- What comes after the presence rules. -/
theorem behave (hRel' : Agrees paths i j Rel') {p : Pipeline} {hooks hooks' : Hooks}
    (hp : ∀ path ∈ p.references, path ∈ paths) (hconvert : convert hooks' = convert hooks)
    (hinspect : Takes Rel Rel' i j (inspect hooks) (inspect hooks')) :
    Takes Rel Rel' i j (Entity.behave (.behaviour p hooks))
      (Entity.behave (.behaviour p hooks')) := by
  intro r s hrs
  have hinside :=
    runPipeline hRel hweaken hRel' hp hinspect (local_convert hooks) _ _ (hRel.enter hrs)
  unfold Entity.behave
  rw [hconvert]
  exact hRel'.leave hinside

variable {n n' : Nat} {source source' : Chain} {resolver resolver' : Option Entity}
  {body body' : Body}

/-- The stages of two entities one after the other. -/
theorem process_of (hprops : source'.props = source.props)
    (hstart : ∀ n n', Takes Rel Rel i j (start n) (start n'))
    (hreplace : Takes Rel Rel i j (replace body) (replace body'))
    (hsubstitute : Takes Rel Rel' i j (substitute resolver source.props.default?)
      (substitute resolver' source.props.default?))
    (hbehave : Takes Rel Rel' i j (Entity.behave body) (Entity.behave body')) :
    Takes Rel Rel' i j (Entity.process (.mk n source resolver body))
      (Entity.process (.mk n' source' resolver' body')) := by
  have hrecord : ∀ issue, Takes Rel Rel' i j (fun id r => r.record id issue)
      fun id r => r.record id issue :=
    fun issue => (of_local (.record issue) hRel).weaken hweaken
  intro r s hrs
  have hstarted := hreplace _ _ (hstart n n' r s hrs)
  unfold Entity.process
  dsimp only
  have hvalue := hRel.value hstarted
  unfold Entity.start at hstarted hvalue
  rw [hvalue, hprops]
  split
  · split
    · exact hrecord _ _ _ hstarted
    · exact hsubstitute _ _ hstarted
  · split
    · exact hrecord _ _ _ hstarted
    · exact hbehave _ _ hstarted

/-- A default is put in place, whatever the numbers of the entities that look it up. -/
theorem substitute {default? : Option Operand}
    (hpath : ∀ path, default?.bind (·.path?) = some path → path ∈ paths)
    (hstart : ∀ n n', Takes Rel Rel i j (start n) (start n'))
    (hr : Resolves default? resolver) (hr' : Resolves default? resolver') :
    Takes Rel Rel' i j (Entity.substitute resolver default?)
      (Entity.substitute resolver' default?) := by
  have hpass : Takes Rel Rel' i j Run.pass Run.pass := (of_local .pass hRel).weaken hweaken
  cases default? with
  | none =>
    obtain rfl : resolver = none := hr
    obtain rfl : resolver' = none := hr'
    exact hpass
  | some operand =>
    cases operand with
    | literal v =>
      obtain rfl : resolver = none := hr
      obtain rfl : resolver' = none := hr'
      exact (of_local (.setValue (some v)) hRel).weaken hweaken
    | reference path =>
      obtain ⟨n, rfl⟩ := hr
      obtain ⟨n', rfl⟩ := hr'
      have hlocal : Local (fun _ => False) paths
          (Entity.behave (.reference path (.ofSteps []))) := by
        refine local_behave ?_ ?_
        · simp [bodyReferences, Pipeline.references, Pipeline.toList, Pipeline.ofSteps]
        · rintro F ⟨pipeline, hooks, he, -⟩
          cases he
      refine process_of hRel hweaken rfl hstart (of_local (local_replace fun p hp => ?_) hRel)
        hpass ((of_local hlocal hRel).weaken hweaken)
      exact Option.some.inj hp ▸ hpath path rfl

/-- Two entities whose behaviours are taken along. -/
theorem process (hprops : source'.props = source.props)
    (hpaths : ∀ path ∈ references (.mk n source resolver body), path ∈ paths)
    (hstart : ∀ n n', Takes Rel Rel i j (start n) (start n'))
    (hr : Resolves source.props.default? resolver) (hr' : Resolves source.props.default? resolver')
    (hreplace : replace body' = replace body)
    (hbehave : Takes Rel Rel' i j (Entity.behave body) (Entity.behave body')) :
    Takes Rel Rel' i j (Entity.process (.mk n source resolver body))
      (Entity.process (.mk n' source' resolver' body')) := by
  have hmem : ∀ path, target? body = some path ∨
      source.props.default?.bind (·.path?) = some path → path ∈ paths := by
    intro path hpath
    refine hpaths path ?_
    simp only [references, mem_distinct, List.mem_append, Option.mem_toList]
    exact .inl hpath
  refine process_of hRel hweaken hprops hstart ?_
    (substitute hRel hweaken (fun path hp => hmem path (.inr hp)) hstart hr hr') hbehave
  rw [hreplace]
  exact of_local (local_replace fun path hp => hmem path (.inl hp)) hRel

end

end Takes

end Run

end Intake
