import Intake.Proofs.Run.Growth
/-!
# What a run is made of

A local stage may note any event on its tracker, so that a stage is local does not tell whether an
entity begins in it, how many processors it calls, or how deep it goes.  Inside of a behaviour
nothing happens but look-ups and calls, and what both keep is kept by everything there:

    Routine id Inv → Inv r → Inv (Entity.inside body id r)

`Routine.process` goes through the rest of an entity, up to its default and its behaviour, and
`Paced.process` through all of it, where an invariant changes when a behaviour is entered and left.
-/

namespace Intake

namespace Entity

/-- What runs between entering the behaviour of a body and leaving it. -/
def inside : Body → Stage
  | .base => Run.pass
  | .reference _ pipeline => Run.runPipeline pipeline Run.pass Run.pass
  | .behaviour pipeline hooks => Run.runPipeline pipeline (inspect hooks) (convert hooks)

theorem behave_eq {body : Body} (h : body ≠ .base) (id : TrackerId) (r : Run) :
    behave body id r = (inside body id (r.enter id)).leave := by
  cases body with
  | base => exact absurd rfl h
  | reference path pipeline => rfl
  | behaviour pipeline hooks => rfl

end Entity

namespace Run

/-- What is kept by each part of the work at the tracker `id` inside of a behaviour. -/
structure Routine (id : TrackerId) (Inv : Run → Prop) : Prop where
  touch : ∀ {f r}, Tracker.OnContent f → Inv r → Inv (r.mapTree (·.update id f))
  lookUp : ∀ {r} path, Inv r → Inv (r.lookUp id path).2
  call : ∀ {r} key value args, Inv r →
    Inv ({ r with steps := r.steps + 1 }.note (.called id key value args))

namespace Routine

variable {id : TrackerId} {Inv : Run → Prop} {r : Run}

theorem setValue (h : Routine id Inv) (v : Option Value) (hr : Inv r) : Inv (r.setValue id v) :=
  h.touch (Tracker.onContent_setValue v) hr

theorem record (h : Routine id Inv) (issue : Issue) (hr : Inv r) : Inv (r.record id issue) :=
  h.touch (Tracker.onContent_record issue) hr

theorem records (h : Routine id Inv) (issues : List Issue) (hr : Inv r) :
    Inv (issues.foldl (fun r issue => r.record id issue) r) := by
  induction issues generalizing r with
  | nil => exact hr
  | cons issue rest ih => exact ih (h.record issue hr)

theorem operands (h : Routine id Inv) (args : List Operand) (hr : Inv r) :
    Inv (r.operands id args).2 := by
  induction args generalizing r with
  | nil => exact hr
  | cons arg rest ih =>
    cases arg with
    | literal v => exact ih hr
    | reference path => exact ih (h.lookUp path hr)

theorem runStep (h : Routine id Inv) (s : CompiledStep) (hr : Inv r) : Inv (runStep s id r) := by
  have hargs := h.operands s.args hr
  exact h.records _ (h.setValue _ (h.call _ _ _ hargs))

theorem runSteps (h : Routine id Inv) {last : Stage} (hlast : ∀ r, Inv r → Inv (last id r))
    (steps : List CompiledStep) (hr : Inv r) : Inv (runSteps last steps id r) := by
  induction steps generalizing r with
  | nil => exact hlast r hr
  | cons s rest ih => exact andThen_keeps (h.runStep s hr) fun _ hr => ih hr

theorem runPipeline (h : Routine id Inv) (p : Pipeline) {inspect convert : Stage}
    (hinspect : ∀ r, Inv r → Inv (inspect id r)) (hconvert : ∀ r, Inv r → Inv (convert id r))
    (hr : Inv r) : Inv (runPipeline p inspect convert id r) := by
  have hrest : ∀ r, Inv r → Inv (andThen inspect (Run.runSteps convert p.steps) id r) :=
    fun r hr => andThen_keeps (hinspect r hr) fun _ hr => h.runSteps hconvert p.steps hr
  unfold Run.runPipeline
  cases p.format with
  | none => exact hrest r hr
  | some s => exact andThen_keeps (h.runStep s hr) hrest

/-! ## Kinds -/

theorem check (h : Routine id Inv) (key : String) (accepts : Value → Bool) (hr : Inv r) :
    Inv (check key accepts id r) := by
  unfold Run.check
  split
  · exact hr
  · exact h.record _ hr

theorem writeDate (h : Routine id Inv) (format : Option String) (hr : Inv r) :
    Inv (writeDate format id r) := by
  cases format with
  | none => exact hr
  | some pattern =>
    rw [writeDate_eq]
    dsimp only
    cases (((r.value? id).bind Value.asString?).bind Date.readIso).bind (·.write pattern) with
    | none => exact hr
    | some text => exact h.setValue _ hr

/-- The kinds without items and members inspect on their own tracker. -/
theorem inspect (h : Routine id Inv) {body : Body} (hb : Entity.Single body) {F : Stage}
    (hF : Entity.Inspects body F) (hr : Inv r) : Inv (F id r) := by
  obtain ⟨pipeline, hooks, rfl, rfl⟩ := hF
  cases hooks with
  | pass => exact hr
  | check type => exact h.check _ _ hr
  | date format => exact h.check _ _ hr
  | array items =>
    cases items with
    | none =>
      show Inv (inspectList none id r)
      rw [inspectList_none_eq]
      dsimp only
      split
      · exact hr
      · exact h.record _ hr
    | some items => exact hb.elim
  | object members schedule policy escaping => exact hb.elim
  | custom hooks => exact h.records _ hr

theorem convert (h : Routine id Inv) (hooks : Hooks) (hr : Inv r) :
    Inv (Entity.convert hooks id r) := by
  cases hooks with
  | date format => exact h.writeDate format hr
  | custom hooks => exact h.setValue _ hr
  | _ => exact hr

/-! ## Entities -/

theorem replace (h : Routine id Inv) (body : Body) (hr : Inv r) :
    Inv (Entity.replace body id r) := by
  cases body with
  | reference path pipeline => exact h.setValue _ (h.lookUp path hr)
  | _ => exact hr

/-- A default without a resolver is put in place at once. -/
theorem substitute (h : Routine id Inv) (default? : Option Operand) (hr : Inv r) :
    Inv (Entity.substitute none default? id r) := by
  cases default? with
  | none => exact hr
  | some operand =>
    cases operand with
    | literal v => exact h.setValue _ hr
    | reference path => exact hr

/-- What is between entering a behaviour and leaving it. -/
theorem inside (h : Routine id Inv) {body : Body}
    (hinspect : ∀ F, Entity.Inspects body F → ∀ r, Inv r → Inv (F id r)) (hr : Inv r) :
    Inv (Entity.inside body id r) := by
  cases body with
  | base => exact hr
  | reference path pipeline =>
    exact h.runPipeline pipeline (fun _ hr => hr) (fun _ hr => hr) hr
  | behaviour pipeline hooks =>
    exact h.runPipeline pipeline (hinspect _ ⟨pipeline, hooks, rfl, rfl⟩)
      (fun _ hr => h.convert hooks hr) hr

/-- What comes after the beginning of an entity, up to the default and the behaviour. -/
theorem process (h : Routine id Inv) {Inv' : Run → Prop} (himp : ∀ r, Inv r → Inv' r) {n : Nat}
    {source : Chain} {resolver : Option Entity} {body : Body}
    (hsubstitute : ∀ r, Inv r → Inv' (Entity.substitute resolver source.props.default? id r))
    (hbehave : ∀ r, Inv r → Inv' (Entity.behave body id r)) (hr : Inv (Entity.start n id r)) :
    Inv' (Entity.process (.mk n source resolver body) id r) := by
  have hreplaced := h.replace body hr
  unfold Entity.process
  dsimp only
  split
  · split
    · exact himp _ (h.record _ hreplaced)
    · exact hsubstitute _ hreplaced
  · split
    · exact himp _ (h.record _ hreplaced)
    · exact hbehave _ hreplaced

end Routine

/-- What is kept by each part of the work at the tracker `id`, on the outside of behaviours and
inside of them. -/
structure Paced (id : TrackerId) (Outside Inside : Run → Prop) : Prop where
  outside : Routine id Outside
  inside : Routine id Inside
  start : ∀ {r} n, Outside r → Outside (Entity.start n id r)
  enter : ∀ {r}, Outside r → Inside (r.enter id)
  leave : ∀ {r}, Inside r → Outside r.leave

namespace Paced

variable {id : TrackerId} {Outside Inside : Run → Prop} {r : Run} {n : Nat} {source : Chain}
  {resolver : Option Entity} {body : Body}

theorem behave (h : Paced id Outside Inside)
    (hinspect : ∀ F, Entity.Inspects body F → ∀ r, Inside r → Inside (F id r)) (hr : Outside r) :
    Outside (Entity.behave body id r) := by
  by_cases hb : body = .base
  · subst hb
    exact hr
  · rw [Entity.behave_eq hb]
    exact h.leave (h.inside.inside hinspect (h.enter hr))

/-- The entity of a default that is a path goes through the same work on the same tracker. -/
theorem substitute (h : Paced id Outside Inside)
    (hr : Entity.Resolves source.props.default? resolver) (hr' : Outside r) :
    Outside (Entity.substitute resolver source.props.default? id r) := by
  unfold Entity.Resolves at hr
  split at hr
  · obtain ⟨m, rfl⟩ := hr
    refine h.outside.process (fun _ hr => hr) (fun r hr => h.outside.substitute _ hr)
      (fun r hr => h.behave ?_ hr) (h.start m hr')
    rintro F ⟨pipeline, hooks, he, -⟩
    cases he
  · subst hr
    exact h.outside.substitute _ hr'

/-- What an entity does, apart from the inspection of its kind. -/
theorem process (h : Paced id Outside Inside)
    (hr : Entity.Resolves source.props.default? resolver)
    (hinspect : ∀ F, Entity.Inspects body F → ∀ r, Inside r → Inside (F id r)) (hr' : Outside r) :
    Outside (Entity.process (.mk n source resolver body) id r) :=
  h.outside.process (fun _ hr => hr) (fun _ hr' => h.substitute hr hr')
    (fun _ hr' => h.behave hinspect hr') (h.start n hr')

end Paced

end Run

end Intake
