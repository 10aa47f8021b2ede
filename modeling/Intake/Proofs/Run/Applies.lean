import Intake.Proofs.Run.Local
import Intake.Proofs.Run.Change
/-!
# Stages that change one tracker

A stage `Applies` a change if all that it does to the tree is to put in the place of its tracker
what the change says, on the same parent and with the same children.  Steps, conversions and
inspections of single values do so, and such stages compose like the changes that they apply.

    Applies F R → Applies G S → Applies (andThen F G) (R.andThen S)
-/

namespace Intake

/-! ## One tracker in the place of another -/

/-- Two trackers stand in the same place and have the same children. -/
structure Tracker.SamePlace (k l : Tracker) : Prop where
  parent : l.parent = k.parent
  segment : l.segment = k.segment
  children : l.children = k.children

namespace Tracker

variable {k l m : Tracker}

theorem SamePlace.refl (k : Tracker) : SamePlace k k := ⟨rfl, rfl, rfl⟩

theorem SamePlace.trans (h : SamePlace k l) (h' : SamePlace l m) : SamePlace k m :=
  ⟨h'.parent.trans h.parent, h'.segment.trans h.segment, h'.children.trans h.children⟩

end Tracker

namespace TrackerTree

variable {t : TrackerTree} {id : TrackerId} {k l : Tracker}

theorem ext_get? {t u : TrackerTree} (h : ∀ x, t.get? x = u.get? x) : t = u := by
  obtain ⟨a⟩ := t
  obtain ⟨b⟩ := u
  exact congrArg TrackerTree.mk (Array.ext_getElem? fun i => h i)

theorem update_update (t : TrackerTree) (id : TrackerId) (f g : Tracker → Tracker) :
    (t.update id f).update id g = t.update id fun k => g (f k) := by
  refine ext_get? fun x => ?_
  by_cases hx : x = id
  · subst hx
    simp only [get?_update_self, Option.map_map]
    rfl
  · simp only [get?_update_of_ne hx]

/-- Only what stands there counts. -/
theorem update_eq (h : t.get? id = some k) {f g : Tracker → Tracker} (hfg : f k = g k) :
    t.update id f = t.update id g := by
  refine ext_get? fun x => ?_
  by_cases hx : x = id
  · subst hx
    simp only [get?_update_self, h, Option.map_some, hfg]
  · simp only [get?_update_of_ne hx]

theorem update_self (h : t.get? id = some k) : t.update id (fun _ => k) = t := by
  refine ext_get? fun x => ?_
  by_cases hx : x = id
  · subst hx
    rw [get?_update_self, h, Option.map_some]
  · rw [get?_update_of_ne hx]

/-- Putting a tracker in the place of another is work on that tracker. -/
theorem Grows.put (hl : t.Linked) (h : t.get? id = some k) (hkl : Tracker.SamePlace k l) :
    Grows id t (t.update id fun _ => l) := by
  have hsame : t.update id (fun _ => l) = t.update id fun q =>
      { q with value := l.value, entity := l.entity, issues := l.issues } := by
    refine update_eq h ?_
    obtain ⟨value, entity, parent, segment, children, issues⟩ := l
    obtain ⟨rfl, rfl, rfl⟩ := hkl
    rfl
  rw [hsame]
  exact .update_of_links hl id fun _ => ⟨rfl, rfl, rfl⟩

end TrackerTree

namespace Run

variable {id : TrackerId} {k : Tracker} {r : Run}

theorem value?_of_get? (h : r.tree.get? id = some k) : r.value? id = k.value := by
  rw [Run.value?, TrackerTree.value?, h, Option.bind_some]

theorem hasIssues_of_get? (h : r.tree.get? id = some k) : r.hasIssues id = k.hasIssues := by
  rw [Run.hasIssues, TrackerTree.hasIssues, h, Option.any_some]

theorem hasIssues_setValue (v : Option Value) :
    (r.setValue id v).hasIssues id = r.hasIssues id := by
  show ((r.tree.update id _).get? id).any _ = (r.tree.get? id).any _
  rw [TrackerTree.get?_update_self]
  cases r.tree.get? id <;> rfl

theorem value?_setValue (hid : id < r.tree.size) (v : Option Value) :
    (r.setValue id v).value? id = v := by
  obtain ⟨k, hk⟩ := TrackerTree.exists_get? hid
  have hget : (r.setValue id v).tree.get? id = some (k.setValue v) := by
    show (r.tree.update id _).get? id = _
    rw [TrackerTree.get?_update_self, hk, Option.map_some]
  exact value?_of_get? hget

theorem value?_record (issue : Issue) : (r.record id issue).value? id = r.value? id := by
  show ((r.tree.update id _).get? id).bind _ = (r.tree.get? id).bind _
  rw [TrackerTree.get?_update_self]
  cases r.tree.get? id <;> rfl

theorem operands_tree (id : TrackerId) (args : List Operand) :
    ∀ r : Run, (r.operands id args).2.tree = r.tree := by
  induction args with
  | nil =>
    intro r
    rfl
  | cons arg rest ih =>
    intro r
    cases arg with
    | literal v => exact ih r
    | reference path => exact ih (r.lookUp id path).2

end Run

/-! ## Stages -/

/-- All that a stage does to the tree is what the change does to its tracker. -/
def Applies (F : Stage) (R : Change) : Prop :=
  ∀ (id : TrackerId) (r : Run) (k : Tracker), r.tree.get? id = some k →
    ∃ l, R k l ∧ Tracker.SamePlace k l ∧ (F id r).tree = r.tree.update id fun _ => l

namespace Applies

open Run

variable {F G : Stage} {R S : Change}

theorem pass : Applies Run.pass Change.same := by
  intro id r k hk
  exact ⟨k, rfl, .refl k, (TrackerTree.update_self hk).symm⟩

/-- A change of the tracker by a function. -/
theorem touch {f : Tracker → Tracker} (hf : ∀ k, Tracker.SamePlace k (f k)) :
    Applies (fun id r => r.mapTree (·.update id f)) fun k l => l = f k := by
  intro id r k hk
  exact ⟨f k, rfl, hf k, TrackerTree.update_eq hk rfl⟩

theorem setValue (v : Option Value) :
    Applies (fun id r => r.setValue id v) fun k l => l = k.setValue v :=
  touch fun _ => ⟨rfl, rfl, rfl⟩

theorem record (issue : Issue) :
    Applies (fun id r => r.record id issue) fun k l => l = k.record issue :=
  touch fun _ => ⟨rfl, rfl, rfl⟩

theorem congr {R' : Change} (h : Applies F R) (hRR' : ∀ k l, R k l → R' k l) :
    Applies F R' := by
  intro id r k hk
  obtain ⟨l, hR, hplace, htree⟩ := h id r k hk
  exact ⟨l, hRR' k l hR, hplace, htree⟩

/-- One stage after the other. -/
theorem seq (hF : Applies F R) (hG : Applies G S) :
    Applies (fun id r => G id (F id r)) fun k l => ∃ m, R k m ∧ S m l := by
  intro id r k hk
  obtain ⟨m, hR, hplace, htree⟩ := hF id r k hk
  have hm : (F id r).tree.get? id = some m := by
    rw [htree, TrackerTree.get?_update_self, hk, Option.map_some]
  obtain ⟨l, hS, hplace', htree'⟩ := hG id (F id r) m hm
  refine ⟨l, ⟨m, hR, hS⟩, hplace.trans hplace', ?_⟩
  rw [htree', htree, TrackerTree.update_update]

/-- A stage that looks at its tracker first. -/
theorem read {H : Option Value → Bool → Stage} {T : Option Value → Bool → Change}
    (h : ∀ v b, Applies (H v b) (T v b)) :
    Applies (fun id r => H (r.value? id) (r.hasIssues id) id r)
      fun k l => T k.value k.hasIssues k l := by
  intro id r k hk
  dsimp only
  rw [value?_of_get? hk, hasIssues_of_get? hk]
  exact h _ _ id r k hk

theorem cond {b : Bool} (hF : Applies F R) (hG : Applies G S) :
    Applies (fun id r => if b then F id r else G id r) fun k l => if b then R k l else S k l := by
  cases b with
  | false => exact hG
  | true => exact hF

theorem andThen (hF : Applies F R) (hG : Applies G S) :
    Applies (Run.andThen F G) (R.andThen S) := by
  have hrest : Applies (fun id r => if r.hasIssues id then r else G id r)
      fun k l => if k.hasIssues then l = k else S k l :=
    read (H := fun _ b id r => if b then r else G id r)
      (T := fun _ b k l => if b then l = k else S k l) fun _ _ => cond pass hG
  exact seq (G := fun id r => if r.hasIssues id then r else G id r) hF hrest

theorem records (issues : List Issue) :
    Applies (fun id r => issues.foldl (fun r issue => r.record id issue) r)
      fun k l => l = { k with issues := k.issues ++ issues } := by
  induction issues with
  | nil => exact pass.congr fun k l h => by simpa [Change.same] using h
  | cons issue rest ih =>
    refine (seq (record issue) ih).congr fun k l h => ?_
    obtain ⟨m, rfl, rfl⟩ := h
    simp [Tracker.record]

/-- The issue that names what is in a list, if something is. -/
theorem naming {α : Type} (key arg : String) (list : List α) (f : α → Value) :
    Applies (fun id r =>
        if list.isEmpty then r else r.record id (.of key [(arg, .list (list.map f))]))
      fun k l => l = { k with issues := k.issues ++ Intake.naming key arg (list.map f) } := by
  cases list with
  | nil =>
    refine pass.congr fun k l h => ?_
    rw [h, Intake.naming, List.map_nil, List.isEmpty_nil, if_pos rfl, List.append_nil]
  | cons a rest => exact record _

/-! ## Steps -/

/-- A step puts its value in place and adds its issues. -/
theorem runStep_tree (s : CompiledStep) {id : TrackerId} {r : Run} {k : Tracker}
    (hk : r.tree.get? id = some k) :
    let result := s.processor.run (k.value.getD .null) (r.operands id s.args).1
    (Run.runStep s id r).tree = r.tree.update id fun _ =>
      { k with
        value := some result.value
        issues := k.issues ++ issuesOf s.processor.key result } := by
  have hk' : (r.operands id s.args).2.tree.get? id = some k := by rwa [operands_tree]
  unfold Run.runStep
  dsimp only
  rw [value?_of_get? hk']
  generalize s.processor.run (k.value.getD .null) (r.operands id s.args).1 = result
  have hleft : Applies
      (fun id r => (issuesOf s.processor.key result).foldl (fun r issue => r.record id issue)
        (r.setValue id (some result.value))) _ :=
    seq (setValue (some result.value)) (records (issuesOf s.processor.key result))
  obtain ⟨l, ⟨m, rfl, rfl⟩, -, htree⟩ := hleft id
    ({ (r.operands id s.args).2 with steps := (r.operands id s.args).2.steps + 1 }.note
      (.called id s.processor.key (k.value.getD .null) (r.operands id s.args).1)) k hk'
  exact htree.trans (congrArg (TrackerTree.update · id _) (operands_tree id s.args r))

/-- What a step leaves on its tracker, whether it fails or not. -/
theorem get?_runStep (s : CompiledStep) {id : TrackerId} {r : Run} {k : Tracker}
    (hk : r.tree.get? id = some k) :
    let result := s.processor.run (k.value.getD .null) (r.operands id s.args).1
    (Run.runStep s id r).tree.get? id = some { k with
      value := some result.value
      issues := k.issues ++ issuesOf s.processor.key result } := by
  intro result
  rw [runStep_tree s hk, TrackerTree.get?_update_self, hk, Option.map_some]

theorem runStep (s : CompiledStep) : Applies (Run.runStep s) (Change.step s) := by
  intro id r k hk
  exact ⟨_, ⟨(r.operands id s.args).1, rfl⟩, ⟨rfl, rfl, rfl⟩, runStep_tree s hk⟩

theorem runSteps {last : Stage} {S : Change} (hlast : Applies last S) :
    ∀ list : List CompiledStep, Applies (Run.runSteps last list) (Change.steps S list)
  | [] => hlast
  | s :: rest => andThen (runStep s) (runSteps hlast rest)

/-! ## Kinds of one value -/

theorem check (key : String) (accepts : Value → Bool) :
    Applies (Run.check key accepts) fun k l =>
      l = if k.value.any accepts then k else k.record (.of key []) := by
  refine (read (H := fun v _ id r => if v.any accepts then r else r.record id (.of key []))
    (T := fun v _ k l => if v.any accepts then l = k else l = k.record (.of key []))
    fun v _ => cond pass (record _)).congr fun k l h => ?_
  split at h
  · next hv => rw [if_pos hv]; exact h
  · next hv => rw [if_neg hv]; exact h

theorem inspectList_none :
    Applies (Run.inspectList none) fun k l =>
      l = if (k.value.bind Value.asList?).isSome then k else k.record (.of "array/type" []) := by
  rw [inspectList_none_eq]
  refine (read (H := fun v _ id r =>
      if (v.bind Value.asList?).isSome then r else r.record id (.of "array/type" []))
    (T := fun v _ k l =>
      if (v.bind Value.asList?).isSome then l = k else l = k.record (.of "array/type" []))
    fun v _ => cond pass (record _)).congr fun k l h => ?_
  split at h
  · next hv => rw [if_pos hv]; exact h
  · next hv => rw [if_neg hv]; exact h

theorem inspectCustom (hooks : CustomHooks) :
    Applies (Run.inspectCustom hooks)
      fun k l => l = { k with issues := k.issues ++ hooks.inspect k.value } :=
  read (H := fun v _ id r => (hooks.inspect v).foldl (fun r issue => r.record id issue) r)
    (T := fun v _ k l => l = { k with issues := k.issues ++ hooks.inspect v })
    fun v _ => records (hooks.inspect v)

theorem writeDate (pattern : String) :
    Applies (Run.writeDate (some pattern)) (Change.converts (.date (some pattern))) := by
  rw [writeDate_eq]
  refine (read (H := fun v _ id r =>
      (((v.bind Value.asString?).bind Date.readIso).bind (·.write pattern)).elim r
        fun text => r.setValue id (some (.str text)))
    (T := fun v _ k l =>
      l = (((v.bind Value.asString?).bind Date.readIso).bind (·.write pattern)).elim k
        fun text => k.setValue (some (.str text))) fun v _ => ?_).congr fun k l h => ?_
  · cases ((v.bind Value.asString?).bind Date.readIso).bind (·.write pattern) with
    | none => exact pass
    | some text => exact setValue _
  · rw [h]
    simp only [Change.converts, Change.converted]
    cases ((k.value.bind Value.asString?).bind Date.readIso).bind (·.write pattern) <;> rfl

theorem convert (hooks : Hooks) : Applies (Entity.convert hooks) (Change.converts hooks) := by
  cases hooks with
  | date format =>
    cases format with
    | none => exact pass
    | some pattern => exact writeDate pattern
  | custom hooks =>
    exact read (H := fun v _ id r => r.setValue id (hooks.convert v))
      (T := fun v _ k l => l = k.setValue (hooks.convert v)) fun v _ => setValue _
  | _ => exact pass

/-- The kinds without items and members inspect their own tracker alone. -/
theorem inspect {pipeline : Pipeline} {hooks : Hooks}
    (h : Entity.Single (.behaviour pipeline hooks)) (parts : String → Part) :
    Applies (Entity.inspect hooks) (Change.inspects parts hooks) := by
  cases hooks with
  | pass => exact pass
  | check type => exact check type.key type.accepts
  | date format => exact check "date/type" Run.isDate
  | array items =>
    cases items with
    | none => exact inspectList_none
    | some items => exact h.elim
  | object members schedule policy escaping => exact h.elim
  | custom hooks => exact inspectCustom hooks

/-! ## Entities -/

/-- An entity takes the tracker over. -/
theorem start (entity : Nat) :
    Applies (Entity.start entity) fun k l => l = k.claim entity := by
  intro id r k hk
  exact touch (f := fun k => k.claim entity) (fun _ => ⟨rfl, rfl, rfl⟩) id r k hk

theorem replace (body : Body) : Applies (Entity.replace body) (Change.replaces body) := by
  cases body with
  | base => exact pass
  | reference path pipeline =>
    intro id r k hk
    obtain ⟨l, rfl, hplace, htree⟩ := setValue (r.lookUp id path).1 id (r.lookUp id path).2 k hk
    exact ⟨_, ⟨_, rfl⟩, hplace, htree⟩
  | behaviour pipeline hooks => exact pass

end Applies

end Intake
