import Intake.Run
import Intake.Proofs.Table
/-!
# Stages

What the stages of processing come to, one equation for each way that they can go.  Of two stages
the second runs if there are no issues after the first:

    (F id r).hasIssues id = false → andThen F G id r = G id (F id r)

A list is emptied, its items run, and it is put together again (`inspectList_of_list`).  An object
is emptied, its members are attached and run, and it is put together again if there are no issues
(`inspectObject_of_object`).  Whatever is no list or no object is refused.
-/

namespace Intake

namespace Run

variable {F G : Stage} {id : TrackerId} {r : Run}

/-! ## One stage after another -/

theorem andThen_of_clean (h : (F id r).hasIssues id = false) :
    andThen F G id r = G id (F id r) := by
  unfold andThen
  dsimp only
  rw [h, if_neg Bool.false_ne_true]

theorem andThen_of_issues (h : (F id r).hasIssues id = true) : andThen F G id r = F id r := by
  unfold andThen
  dsimp only
  rw [h, if_pos rfl]

theorem andThen_keeps {P : Run → Prop} (hF : P (F id r)) (hG : ∀ r, P r → P (G id r)) :
    P (andThen F G id r) := by
  cases hissues : (F id r).hasIssues id with
  | true =>
    rw [andThen_of_issues hissues]
    exact hF
  | false =>
    rw [andThen_of_clean hissues]
    exact hG _ hF

/-- Two runs that agree on issues stop both after the first stage, or go on both. -/
theorem andThen_agrees {Rel Rel' : Run → Run → Prop} {F' G' : Stage} {j : TrackerId} {s : Run}
    (issues : ∀ r s, Rel r s → r.hasIssues id = s.hasIssues j)
    (hF : Rel (F id r) (F' j s)) (stop : ∀ r s, Rel r s → Rel' r s)
    (hG : ∀ r s, Rel r s → Rel' (G id r) (G' j s)) :
    Rel' (andThen F G id r) (andThen F' G' j s) := by
  cases hissues : (F id r).hasIssues id with
  | true =>
    rw [andThen_of_issues hissues, andThen_of_issues ((issues _ _ hF).symm.trans hissues)]
    exact stop _ _ hF
  | false =>
    rw [andThen_of_clean hissues, andThen_of_clean ((issues _ _ hF).symm.trans hissues)]
    exact hG _ _ hF

/-! ## Kinds of one value -/

/-- Writing a date looks at the text that comes out. -/
theorem writeDate_eq (pattern : String) :
    writeDate (some pattern) = fun id r =>
      ((((r.value? id).bind Value.asString?).bind Date.readIso).bind (·.write pattern)).elim r
        fun text => r.setValue id (some (.str text)) := by
  funext id r
  unfold writeDate
  dsimp only
  cases ((r.value? id).bind Value.asString?).bind Date.readIso with
  | none => rfl
  | some d =>
    dsimp only [Option.bind_some]
    cases d.write pattern <;> rfl

/-! ## Lists -/

/-- Without a chain for the items, a list only has to be one. -/
theorem inspectList_none_eq :
    inspectList none = fun id r =>
      if ((r.value? id).bind Value.asList?).isSome then r
      else r.record id (.of "array/type" []) := by
  funext id r
  unfold inspectList
  cases r.value? id with
  | none => rfl
  | some v => cases v <;> rfl

theorem inspectList_of_list {item : Stage} {values : List Value}
    (hv : r.value? id = some (.list values)) :
    inspectList (some item) id r =
      let (outs, failing, r) := runItems item id 0 values (r.setValue id none)
      let r := r.setValue id (some (.list outs))
      if failing.isEmpty then r
      else r.record id (.of "array/items" [("indexes", .list (failing.map .ofNat))]) := by
  unfold inspectList
  rw [hv]

theorem inspectList_refuses {item : Option Stage}
    (h : ¬ ∃ values, r.value? id = some (.list values)) :
    inspectList item id r = r.record id (.of "array/type" []) := by
  unfold inspectList
  split
  · next values hv => exact absurd ⟨values, hv⟩ h
  · rfl

/-! ## Objects -/

theorem memberStages_eq (members : List (String × Entity)) :
    Entity.memberStages members = members.map fun m => (m.1, m.2.process) := by
  induction members with
  | nil => rw [Entity.memberStages, List.map_nil]
  | cons m rest ih => rw [Entity.memberStages, ih, List.map_cons]

theorem names_memberStages (members : List (String × Entity)) :
    Table.names (Entity.memberStages members) = members.map (·.1) := by
  simp [memberStages_eq, Table.names]

theorem inspectObject_of_object {members : List (String × Entity)} {schedule : Schedule String}
    {policy : UnknownKeys} {input : List (String × Value)}
    (hv : r.value? id = some (.object input)) :
    inspectObject (Entity.memberStages members) schedule policy id r =
      andThen (runSchedule schedule (Entity.memberStages members))
        (assemble policy (members.map (·.1))
          (input.filter fun m => !(members.map (·.1)).contains m.1)) id
        ((r.setValue id none).mapTree (attachMembers id (members.map (·.1)) input)) := by
  unfold inspectObject
  rw [hv, names_memberStages]

theorem inspectObject_refuses {stages : Table Stage} {schedule : Schedule String}
    {policy : UnknownKeys} (h : ¬ ∃ input, r.value? id = some (.object input)) :
    inspectObject stages schedule policy id r = r.record id (.of "object/type" []) := by
  unfold inspectObject
  split
  · next input hv => exact absurd ⟨input, hv⟩ h
  · rfl

/-- Names are recorded in one issue, or there are none. -/
theorem recordNames_keeps {P : Run → Prop} (record : ∀ issue, P (r.record id issue)) (hr : P r)
    (key arg : String) (names : List String) : P (r.recordNames id key arg names) := by
  unfold recordNames
  split
  · exact hr
  · exact record _

/-- The same names are recorded in two runs alike. -/
theorem recordNames_agrees {Rel : Run → Run → Prop} {j : TrackerId} {s : Run}
    (record : ∀ issue, Rel (r.record id issue) (s.record j issue)) (hrs : Rel r s)
    (key arg : String) (names : List String) :
    Rel (r.recordNames id key arg names) (s.recordNames j key arg names) := by
  unfold recordNames
  split
  · exact hrs
  · exact record _

end Run

end Intake
