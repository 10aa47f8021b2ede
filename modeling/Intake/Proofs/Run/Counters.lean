import Intake.Proofs.Run.FailingChildren
import Intake.Proofs.Run.Gauge
/-!
# The counters of a run

After a run of whatever compiles, on whatever input, the depth is zero, as many steps have been
executed as processors have been called, and the maximal depth is one more than the depth, in the
tree, of the deepest tracker at which a behaviour was entered (`Run.Deepest`):

    Mapper.standard.compile c = .ok e → (e.run input).depth = 0

A behaviour is entered at the tracker of an entity exactly if one is to run on a defined value: the
behaviour of its kind, the pipeline of a reference, or the look-up of a default (`Entity.Runs`).
-/

namespace Intake

/-! ## When a behaviour runs -/

namespace Entity

open Run

variable {own : Option String} {e : Entity} {id : TrackerId} {r r' r'' : Run}

/-- Whether a behaviour is to run on a defined value: on one that is tracked and not forbidden the
behaviour of the kind or the pipeline of the reference, and in the place of one that is not tracked
the look-up of a default that is there. -/
def Runs (e : Entity) (id : TrackerId) (r : Run) : Prop :=
  match e.tracked id r with
  | some _ => e.source.props.forbidden = false ∧ e.body ≠ .base
  | none => e.source.props.required = false ∧ ∃ path,
      e.source.props.default? = some (.reference path) ∧
      (defaulted e.source.props.default? id r.tree).isSome = true

/-! ### What precedes the presence rules -/

theorem value?_face (hlt : id < r.tree.size) : (e.face id r).value? id = e.tracked id r := by
  obtain ⟨n, source, resolver, body⟩ := e
  have hsame : (start n id r).value? id = r.value? id := by
    show ((r.tree.update id _).get? id).bind _ = (r.tree.get? id).bind _
    rw [TrackerTree.get?_update_self]
    cases r.tree.get? id <;> rfl
  cases body with
  | reference path pipeline =>
    have hlt' : id < (start n id r).tree.size := by
      show id < (r.tree.update id _).size
      rwa [TrackerTree.size_update]
    exact (value?_setValue (r := ((start n id r).lookUp id path).2) hlt' _).trans
      (resolve_claim r.tree id id n path)
  | base => exact hsame
  | behaviour pipeline hooks => exact hsame

/-- Before the look-up of a default the tracker has no value, and a claim does not show. -/
theorem resolve_face (hlt : id < r.tree.size) (hnone : e.tracked id r = none) (path : Path) :
    (e.face id r).tree.resolve id path = (r.tree.setValue id none).resolve id path := by
  obtain ⟨n, source, resolver, body⟩ := e
  obtain ⟨k, hk⟩ := TrackerTree.exists_get? hlt
  have htree : (face (.mk n source resolver body) id r).tree =
      (r.tree.setValue id none).update id (·.claim n) := by
    rw [TrackerTree.setValue, TrackerTree.update_update]
    cases body with
    | reference target pipeline =>
      have hfound : ((start n id r).lookUp id target).1 = none :=
        (resolve_claim r.tree id id n target).trans hnone
      show ((r.tree.update id _).update id (·.setValue ((start n id r).lookUp id target).1)) = _
      rw [hfound, TrackerTree.update_update]
      rfl
    | base =>
      have hvalue : k.value = none := (value?_of_get? hk).symm.trans hnone
      exact TrackerTree.update_eq hk (by rw [← hvalue]; rfl)
    | behaviour pipeline hooks =>
      have hvalue : k.value = none := (value?_of_get? hk).symm.trans hnone
      exact TrackerTree.update_eq hk (by rw [← hvalue]; rfl)
  rw [htree, resolve_claim]

theorem gauged_face (hl : r.tree.Linked) (hlt : id < r.tree.size) :
    Gauged id r r.depth (e.face id r) :=
  (Gauged.routine hlt).replace e.body ((Gauged.paced hlt).start e.id ⟨[], .refl hl id⟩)

/-! ### Entered or not -/

/-- No behaviour has been entered in the meantime. -/
def Idle (r r' : Run) : Prop := ∃ new, r'.trace = new ++ r.trace ∧ ∀ x, .entered x ∉ new

theorem Idle.refl (r : Run) : Idle r r := ⟨[], rfl, fun _ => List.not_mem_nil⟩

theorem Idle.trans (h : Idle r r') (h' : Idle r' r'') : Idle r r'' := by
  obtain ⟨new, hnew, hidle⟩ := h
  obtain ⟨new', hnew', hidle'⟩ := h'
  refine ⟨new' ++ new, by rw [hnew', hnew, List.append_assoc], fun x hx => ?_⟩
  exact (List.mem_append.1 hx).elim (hidle' x) (hidle x)

theorem Idle.note {event : Event} (h : Idle r r') (htrace : r''.trace = event :: r'.trace)
    (he : ∀ x, event ≠ .entered x) : Idle r r'' :=
  h.trans ⟨[event], htrace, fun x hx => he x (List.mem_singleton.1 hx).symm⟩

theorem Idle.routine (id : TrackerId) (r : Run) : Routine id (Idle r) where
  touch _ h := h
  lookUp _ h := h.note rfl (fun _ he => nomatch he)
  call _ _ _ h := h.note rfl (fun _ he => nomatch he)

theorem face_idle (e : Entity) (id : TrackerId) (r : Run) : Idle r (e.face id r) := by
  have hstart : Idle r (start e.id id r) := (Idle.refl r).note rfl (fun _ he => nomatch he)
  exact (Idle.routine id r).replace e.body hstart

/-- Whether the behaviour at a tracker has been entered in the meantime. -/
def Entered (id : TrackerId) (r r' : Run) (P : Prop) : Prop :=
  ∃ new, r'.trace = new ++ r.trace ∧ (.entered id ∈ new ↔ P)

theorem Idle.entered (h : Idle r r') {P : Prop} (hP : ¬ P) : Entered id r r' P := by
  obtain ⟨new, hnew, hidle⟩ := h
  exact ⟨new, hnew, iff_of_false (hidle id) hP⟩

theorem Idle.entered_of_trace (h : Idle r r') {new : List Event}
    (hnew : r''.trace = new ++ .entered id :: r'.trace) {P : Prop} (hP : P) :
    Entered id r r'' P := by
  obtain ⟨old, hold, -⟩ := h
  refine ⟨new ++ .entered id :: old, by rw [hnew, hold]; simp, iff_of_true ?_ hP⟩
  exact List.mem_append_right _ List.mem_cons_self

/-- The look-up of a default enters a behaviour if it finds a value. -/
theorem entered_resolving (n : Nat) (path : Path) (hlt : id < r'.tree.size) (h : Idle r r')
    {P : Prop} (hP : (r'.tree.resolve id path).isSome = true ↔ P) :
    Entered id r (process (resolving n path) id r') P := by
  have hidle := h.trans (face_idle (resolving n path) id r')
  rw [process_judge, value?_face hlt]
  show Entered id r (judge _ _ _ (r'.tree.resolve id path) id _) P
  cases hv : r'.tree.resolve id path with
  | none =>
    rw [hv] at hP
    exact hidle.entered fun hp => Bool.false_ne_true (hP.2 hp)
  | some v =>
    rw [hv] at hP
    show Entered id r (behave (.reference path (.ofSteps [])) id _) P
    rw [behave_stepless]
    have htrace : (leave (enter id (face (resolving n path) id r'))).trace =
        [] ++ .entered id :: (face (resolving n path) id r').trace := rfl
    exact hidle.entered_of_trace htrace (hP.1 rfl)

/-- A value that is forbidden is refused, and any other enters the behaviour if there is one. -/
theorem entered_defined (h : Arranged own e) (hl : r.tree.Linked) (hlt : id < r.tree.size)
    {v : Value} (hv : e.tracked id r = some v) :
    Entered id r (e.process id r) (e.source.props.forbidden = false ∧ e.body ≠ .base) := by
  have hidle := face_idle e id r
  have hface := (gauged_face (e := e) hl hlt).advances
  rw [process_judge, value?_face hlt, hv]
  cases hforbidden : e.source.props.forbidden with
  | true =>
    simp only [judge, hforbidden, if_pos]
    have hrefused := (Idle.routine id r).record (.of "generic/forbidden" []) hidle
    exact hrefused.entered fun hruns => Bool.false_ne_true hruns.1.symm
  | false =>
    simp only [judge, hforbidden, if_neg Bool.false_ne_true]
    by_cases hb : e.body = .base
    · rw [hb]
      exact hidle.entered fun hruns => hruns.2 rfl
    · obtain ⟨new, hnew⟩ := inside_trace h hface.grows.linked (hface.lt hlt)
      rw [behave_eq hb]
      exact hidle.entered_of_trace hnew ⟨trivial, hb⟩

/-- Without a value a required one is missed, a literal default takes its place, and only the
look-up of a default may enter a behaviour. -/
theorem entered_missing (he : e.Compiled) (hl : r.tree.Linked) (hlt : id < r.tree.size)
    (hnone : e.tracked id r = none) :
    Entered id r (e.process id r) (e.source.props.required = false ∧ ∃ path,
      e.source.props.default? = some (.reference path) ∧
      (defaulted e.source.props.default? id r.tree).isSome = true) := by
  have hidle := face_idle e id r
  have hface := (gauged_face (e := e) hl hlt).advances
  have hresolves := he.resolves
  rw [process_judge, value?_face hlt, hnone]
  cases hrequired : e.source.props.required with
  | true =>
    simp only [judge, hrequired, if_pos]
    have hmissed := (Idle.routine id r).record (.of "generic/required" []) hidle
    exact hmissed.entered fun hruns => Bool.false_ne_true hruns.1.symm
  | false =>
    simp only [judge, hrequired, if_neg Bool.false_ne_true]
    cases hdefault : e.source.props.default? with
    | none =>
      rw [hdefault] at hresolves
      rw [show e.resolver = none from hresolves]
      exact hidle.entered fun hruns => by simp at hruns
    | some operand =>
      rw [hdefault] at hresolves
      cases operand with
      | literal v =>
        have hplaced := (Idle.routine id r).substitute (some (.literal v)) hidle
        rw [show e.resolver = none from hresolves]
        exact hplaced.entered fun hruns => by simp at hruns
      | reference path =>
        obtain ⟨n, hn⟩ := hresolves
        rw [hn]
        refine entered_resolving n path (hface.lt hlt) hidle ?_
        rw [resolve_face hlt hnone]
        simp [defaulted]

/-- A behaviour is entered on the tracker of an entity exactly if one is to run. -/
theorem entered_process (he : e.Compiled) (h : Arranged own e) (hl : r.tree.Linked)
    (hlt : id < r.tree.size) : Entered id r (e.process id r) (e.Runs id r) := by
  unfold Runs
  cases hv : e.tracked id r with
  | none => exact entered_missing he hl hlt hv
  | some v => exact entered_defined h hl hlt hv

end Entity

/-! ## The main result -/

namespace Run

open Entity

/-- The maximal depth is one more than that of the deepest tracker at which a behaviour has been
entered, or zero if none has been. -/
def Deepest (r : Run) : Prop :=
  (r.maxDepth = 0 ∧ ∀ x, .entered x ∉ r.trace) ∨
  ∃ x, .entered x ∈ r.trace ∧ r.maxDepth = r.tree.depthOf x + 1 ∧
    ∀ y, .entered y ∈ r.trace → r.tree.depthOf y ≤ r.tree.depthOf x

/-- A run begins at the root, which is not deep, and has counted nothing before. -/
theorem counters_of_arranged {own : Option String} {e : Entity} (h : Arranged own e)
    (input : Option Value) :
    (e.run input).depth = 0 ∧
    (e.run input).steps = (e.run input).trace.countP (·.isCall) ∧ (e.run input).Deepest := by
  have hl : (ofValue input).tree.Linked := TrackerTree.linked_ofValue input
  have hlt : TrackerTree.root < (ofValue input).tree.size := Nat.one_pos
  obtain ⟨new, hnew⟩ := gauged_process h hl hlt
  have htrace : (e.run input).trace = new := hnew.trace.trans (List.append_nil new)
  have htop : (e.run input).tree.depthOf TrackerTree.root = 0 :=
    hnew.advances.grows.depthOf_eq hl hlt
  have hbound : ∀ x, .entered x ∈ new → 0 + (e.run input).tree.depthOf x + 1 ≤
      (e.run input).maxDepth + (e.run input).tree.depthOf TrackerTree.root := hnew.bound
  have hattained : (e.run input).maxDepth = 0 ∨ ∃ x, .entered x ∈ new ∧
      0 + (e.run input).tree.depthOf x + 1 =
        (e.run input).maxDepth + (e.run input).tree.depthOf TrackerTree.root := hnew.attained
  have hsteps : (e.run input).steps = 0 + new.countP (·.isCall) := hnew.steps
  refine ⟨hnew.depth, by rw [hsteps, htrace, Nat.zero_add], ?_⟩
  rw [Deepest, htrace]
  rcases hattained with hzero | ⟨x, hx, hmax⟩
  · refine .inl ⟨hzero, fun x hx => ?_⟩
    have hx' := hbound x hx
    omega
  · refine .inr ⟨x, hx, by omega, fun y hy => ?_⟩
    have hy' := hbound y hy
    omega

/-- Whatever compiles and whatever the input, the counters are balanced and exact.  So they are for
each entity of the compiled tree at any tracker of any run: the depth is the one that it began at,
what is left has been entered, and a behaviour is entered exactly if one is to run. -/
theorem balanced_counters {c : Chain} {e : Entity} (hc : Mapper.standard.compile c = .ok e) :
    (∀ input, (e.run input).depth = 0 ∧
      (e.run input).steps = (e.run input).trace.countP (·.isCall) ∧ (e.run input).Deepest) ∧
    ∀ inner : Entity, inner.Within e → ∀ (id : TrackerId) (r : Run), r.tree.Linked →
      id < r.tree.size →
        (inner.process id r).depth = r.depth ∧
        (inner.body ≠ .base →
          behave inner.body id r = (inside inner.body id (r.enter id)).leave ∧
          (inside inner.body id (r.enter id)).depth = r.depth + 1) ∧
        Entered id r (inner.process id r) (inner.Runs id r) := by
  refine ⟨counters_of_arranged (Mapper.compile_arranged hc), fun inner hinner id r hl hlt => ?_⟩
  obtain ⟨-, own, harranged⟩ := hinner.arranged hc
  refine ⟨(gauged_process harranged hl hlt).depth_eq, fun hb => ⟨behave_eq hb id r, ?_⟩, ?_⟩
  · exact inside_depth harranged hl hlt
  · exact entered_process (hinner.compiled hc) harranged hl hlt

theorem balanced_counters_scores :
    Mapper.standard.compile scoring = .ok scorer ∧ scorer.Within scorer ∧
    (ofValue scores).tree.Linked ∧ TrackerTree.root < (ofValue scores).tree.size ∧
    (scorer.run scores).Deepest ∧ (scorer.run scores).maxDepth = 3 ∧
    Entered TrackerTree.root (ofValue scores) (scorer.run scores)
      (scorer.Runs TrackerTree.root (ofValue scores)) := by
  obtain ⟨hrun, hall⟩ := balanced_counters compile_scoring
  have hwithin : scorer.Within scorer := ⟨[], scorer, rfl, .inl rfl⟩
  have hl : (ofValue scores).tree.Linked := TrackerTree.linked_ofValue scores
  have hlt : TrackerTree.root < (ofValue scores).tree.size := Nat.one_pos
  obtain ⟨-, -, hentered⟩ := hall scorer hwithin TrackerTree.root (ofValue scores) hl hlt
  exact ⟨compile_scoring, hwithin, hl, hlt, (hrun scores).2.2, by decide +kernel, hentered⟩

end Run

end Intake
