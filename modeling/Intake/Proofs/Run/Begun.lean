import Intake.Proofs.Entity.Numbered
import Intake.Proofs.Run.Routine
/-!
# Who has begun on a tracker

`r.begunOn x` are the numbers of the entities that have begun on the tracker `x`, the latest
first.  Work at one tracker changes it for no other (`Advances.begunOn_eq`).  Of the work at a
tracker itself, the beginning of its entity does, and that of the default's resolver; the rest is
`Calm`, so what such work keeps is kept by all of `Entity.process` between the two:

    P [] r → ∃ l, e.Once l ∧ P l (e.process id r)
-/

namespace Intake

namespace Event

/-- The entity that has begun on a tracker. -/
def beganOn (x : TrackerId) : Event → Option Nat
  | .began entity id => if id = x then some entity else none
  | _ => none

/-- The trackers that an event involves. -/
def trackers : Event → List TrackerId
  | .lookedUp id _ found _ => id :: found.toList
  | event => [event.tracker]

variable {event : Event} {x : TrackerId} {n : Nat}

theorem beganOn_eq_some : event.beganOn x = some n ↔ event = .began n x := by
  cases event with
  | began entity id =>
    rw [beganOn, Event.began.injEq]
    split
    · next h => simp [h]
    · next h => simp [h]
  | _ => simp [beganOn]

theorem beganOn_of_ne (h : event.tracker ≠ x) : event.beganOn x = none := by
  refine Option.eq_none_iff_forall_ne_some.2 fun n hn => h ?_
  rw [beganOn_eq_some.1 hn]
  rfl

theorem tracker_mem_trackers (event : Event) : event.tracker ∈ event.trackers := by
  cases event <;> exact List.mem_cons_self

/-- Only a look-up involves another tracker. -/
theorem trackers_of_isLookUp (h : event.isLookUp = false) : event.trackers = [event.tracker] := by
  cases event with
  | lookedUp id path found value => cases h
  | _ => rfl

end Event

namespace Run

/-- The entities that have begun on a tracker, the latest first. -/
def begunOn (r : Run) (x : TrackerId) : List Nat := r.trace.filterMap (·.beganOn x)

variable {id x : TrackerId} {r r' : Run}

theorem mem_begunOn {n : Nat} : n ∈ r.begunOn x ↔ .began n x ∈ r.trace := by
  simp only [begunOn, List.mem_filterMap, Event.beganOn_eq_some, exists_eq_right]

theorem begunOn_of_trace (h : r'.trace = r.trace) (x : TrackerId) : r'.begunOn x = r.begunOn x := by
  rw [begunOn, begunOn, h]

theorem begunOn_note (event : Event) (r : Run) (x : TrackerId) :
    (r.note event).begunOn x = (event.beganOn x).toList ++ r.begunOn x := by
  rw [begunOn, note, List.filterMap_cons, begunOn]
  cases event.beganOn x <;> rfl

theorem begunOn_start (n : Nat) (id : TrackerId) (r : Run) :
    (Entity.start n id r).begunOn id = n :: r.begunOn id := by
  rw [Entity.start, begunOn_note, Event.beganOn, if_pos rfl]
  rfl

/-- No entity has begun on another tracker that was there. -/
theorem Advances.begunOn_eq (h : Advances id r r') (hx : x < r.tree.size) (hne : x ≠ id) :
    r'.begunOn x = r.begunOn x :=
  h.filterMap_trace hx hne fun _ => Event.beganOn_of_ne

/-! ## Orderly runs -/

/-- All that has happened involves trackers of the tree, each after an entity began on it. -/
structure Orderly (r : Run) : Prop where
  within : ∀ event ∈ r.trace, ∀ x ∈ event.trackers, x < r.tree.size
  begun : ∀ {later event earlier}, r.trace = later ++ event :: earlier →
    ∃ n, .began n event.tracker ∈ event :: earlier

namespace Orderly

theorem begunOn_eq_nil (h : Orderly r) (hx : r.tree.size ≤ x) : r.begunOn x = [] := by
  refine List.filterMap_eq_nil_iff.2 fun event hevent => Event.beganOn_of_ne ?_
  rintro rfl
  exact Nat.not_lt.2 hx (h.within event hevent _ event.tracker_mem_trackers)

theorem grow (h : Orderly r) (hsize : r.tree.size ≤ r'.tree.size) (htrace : r'.trace = r.trace) :
    Orderly r' := by
  refine ⟨fun event hevent x hx => ?_, fun hsplit => h.begun (htrace ▸ hsplit)⟩
  rw [htrace] at hevent
  exact Nat.lt_of_lt_of_le (h.within event hevent x hx) hsize

theorem note (h : Orderly r) {event : Event} (hwithin : ∀ x ∈ event.trackers, x < r.tree.size)
    (hbegun : ∃ n, .began n event.tracker ∈ event :: r.trace) : Orderly (r.note event) := by
  refine ⟨List.forall_mem_cons.2 ⟨hwithin, h.within⟩, fun {later e earlier} hsplit => ?_⟩
  cases later with
  | nil =>
    obtain ⟨rfl, rfl⟩ := List.cons.inj hsplit
    exact hbegun
  | cons first later =>
    obtain ⟨-, hsplit⟩ := List.cons.inj hsplit
    exact h.begun hsplit

end Orderly

/-! ## Work in which no entity begins -/

/-- What is kept by each part of the work at the tracker `id` in which no entity begins. -/
structure Calm (id : TrackerId) (Inv : Run → Prop) : Prop where
  touch : ∀ {f r}, Tracker.OnContent f → Inv r → Inv (r.mapTree (·.update id f))
  note : ∀ {event r}, event.tracker = id → event.isLookUp = false → event.beganOn id = none →
    Inv r → Inv (r.note event)
  tally : ∀ {r r'}, r'.tree = r.tree → r'.trace = r.trace → Inv r → Inv r'
  lookUp : ∀ {r} path, Inv r → Inv (r.lookUp id path).2

namespace Calm

variable {Inv : Run → Prop}

theorem routine (h : Calm id Inv) : Routine id Inv where
  touch := h.touch
  lookUp := h.lookUp
  call {r} _ _ _ hr := h.note rfl rfl rfl (h.tally (r := r) rfl rfl hr)

theorem behave (h : Calm id Inv) {body : Body}
    (hinspect : ∀ F, Entity.Inspects body F → ∀ r, Inv r → Inv (F id r)) (hr : Inv r) :
    Inv (Entity.behave body id r) := by
  by_cases hb : body = .base
  · subst hb
    exact hr
  · have henter : Inv (r.enter id) := h.note rfl rfl rfl (h.tally (r := r) rfl rfl hr)
    rw [Entity.behave_eq hb]
    have hinside := h.routine.inside hinspect henter
    exact h.tally (r := Entity.inside body id (r.enter id)) rfl rfl hinside

end Calm

end Run

/-! ## Processing -/

namespace Entity

open Run

/-- The entity has begun once, and after it at most the resolver of its default. -/
def Once (e : Entity) (begun : List Nat) : Prop :=
  begun = [e.id] ∨ ∃ resolver, e.resolver = some resolver ∧ begun = [resolver.id, e.id]

theorem Once.count {e : Entity} {begun : List Nat} (h : e.Once begun) (hn : e.Numbered) :
    begun.count e.id = 1 := by
  rcases h with rfl | ⟨resolver, hr, rfl⟩
  · exact List.count_singleton_self
  · have hne : resolver.id ≠ e.id := Nat.ne_of_gt (hn resolver hr)
    rw [List.count_cons_of_ne hne]
    exact List.count_singleton_self

/-- If `P` counts the entities that begin on a tracker and is kept by all other work there, then
an entity that processes the tracker counts once. -/
theorem process_once {n : Nat} {source : Chain} {resolver : Option Entity} {body : Body}
    (hr : Resolves source.props.default? resolver) {id : TrackerId} {P : List Nat → Run → Prop}
    (hcalm : ∀ l ≠ [], Calm id (P l)) (hstart : ∀ n l r, P l r → P (n :: l) (start n id r))
    (hinspect : ∀ F, Inspects body F → ∀ l ≠ [], ∀ r, P l r → P l (F id r)) {r : Run}
    (h : P [] r) : ∃ l, Once (.mk n source resolver body) l ∧
      P l (process (.mk n source resolver body) id r) := by
  have alone : ∀ r, P [n] r → ∃ l, Once (.mk n source resolver body) l ∧ P l r :=
    fun r hr => ⟨[n], .inl rfl, hr⟩
  have hown := hcalm [n] (List.cons_ne_nil _ _)
  have hown' : ∀ F, Inspects body F → ∀ r, P [n] r → P [n] (F id r) :=
    fun F hF => hinspect F hF [n] (List.cons_ne_nil _ _)
  refine hown.routine.process alone (fun r hr' => ?_)
    (fun r hr' => alone _ (hown.behave hown' hr')) (hstart n [] r h)
  cases hdefault : source.props.default? with
  | none =>
    rw [hdefault] at hr
    obtain rfl : resolver = none := hr
    exact alone _ (hown.routine.substitute none hr')
  | some operand =>
    rw [hdefault] at hr
    cases operand with
    | literal v =>
      obtain rfl : resolver = none := hr
      exact alone _ (hown.routine.substitute (some (.literal v)) hr')
    | reference path =>
      -- the resolver begins on the same tracker, and has itself no default to resolve
      obtain ⟨m, rfl⟩ := hr
      have hboth := hcalm [m, n] (List.cons_ne_nil _ _)
      refine ⟨[m, n], .inr ⟨_, rfl, rfl⟩, ?_⟩
      refine hboth.routine.process (fun _ hr => hr) (fun r hr => hboth.routine.substitute _ hr)
        (fun r hr => hboth.behave ?_ hr) (hstart m [n] r hr')
      rintro F ⟨pipeline, hooks, he, -⟩
      cases he

end Entity

end Intake
