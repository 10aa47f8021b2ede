import Mathlib.Data.List.Nodup
import Intake.Outcome
import Intake.Proofs.Tracker.Addresses
/-!
# What is listed, and in which order

The trackers that are visited from one of them are those below it, each once and before what is
below its children.  The children stand in the order in which their segments were first attached:
one that is attached again takes the place of the old one.  Of each tracker visited all issues are
listed as they were recorded, and there are issues below a tracker exactly if some are listed.

    x ∈ t.descend id  ↔  id < t.size ∧ t.Below id x
    t.hasIssuesBelow id = true  ↔  t.collect id ≠ []
-/

namespace Intake.TrackerTree

variable {t : TrackerTree} {x y c : TrackerId} {k : Tracker} {edits : List Edit}

/-! ## Two walks that agree -/

/-- The one walk asks every tracker that the other visits. -/
theorem hasIssuesBelow_eq_any (t : TrackerTree) (x : TrackerId) :
    t.hasIssuesBelow x = (t.descend x).any t.hasIssues := by
  induction x using hasIssuesBelow.induct t with
  | case1 x hk => rw [hasIssuesBelow, descend, hk]; rfl
  | case2 x k hk ih =>
    have hself : t.hasIssues x = k.hasIssues := by rw [hasIssues, hk]; rfl
    rw [hasIssuesBelow, descend, hk, List.any_cons, hself, List.any_flatMap]
    refine congrArg (k.hasIssues || ·) (List.any_congr rfl fun entry => ?_)
    split
    · next hlt => exact ih entry hlt
    · rfl

theorem located_ne_nil_iff (t : TrackerTree) (x : TrackerId) :
    t.located x ≠ [] ↔ t.hasIssues x = true := by
  unfold located hasIssues
  cases t.get? x with
  | none => simp
  | some k => cases hissues : k.issues <;> simp [Tracker.hasIssues, hissues]

theorem hasIssuesBelow_iff_collect (t : TrackerTree) (x : TrackerId) :
    t.hasIssuesBelow x = true ↔ t.collect x ≠ [] := by
  rw [hasIssuesBelow_eq_any, List.any_eq_true, collect, Ne, List.flatMap_eq_nil_iff]
  simp only [← located_ne_nil_iff, not_forall, exists_prop, ne_eq]

theorem report_valid_iff (r : Run) : r.report.valid = true ↔ r.report.issues = [] := by
  have hwalks := hasIssuesBelow_iff_collect r.tree root
  show (!r.tree.hasIssuesBelow root) = true ↔ r.tree.collect root = []
  rw [Bool.not_eq_true', ← Bool.not_eq_true, hwalks, ne_eq, not_not]

/-! ## Who is visited -/

/-- The first step down. -/
theorem below_iff : t.Below x y ↔ y = x ∨ ∃ s c, t.child? x s = some c ∧ t.Below c y := by
  constructor
  · rintro ⟨segments, hf⟩
    cases segments with
    | nil => exact .inl (Option.some.inj hf).symm
    | cons s rest =>
      rw [follow_cons, Option.bind_eq_some_iff] at hf
      obtain ⟨c, hc, hf⟩ := hf
      exact .inr ⟨s, c, hc, rest, hf⟩
  · rintro (rfl | ⟨s, c, hc, h⟩)
    · exact .refl t y
    · exact .head hc h

namespace Edited

variable {value : Option Value}

theorem descend_eq (h : Edited value edits t) (hk : t.get? x = some k) :
    t.descend x = x :: k.children.flatMap fun entry => t.descend entry.2 :=
  h.linked.descend_eq hk (h.nodup_children hk)

theorem mem_children (h : Edited value edits t) (hk : t.get? x = some k) {s : String} :
    (s, c) ∈ k.children ↔ t.child? x s = some c := by
  rw [child?_of_get? hk]
  exact ⟨Table.get?_of_mem (h.nodup_children hk), Table.mem_of_get?⟩

theorem mem_descend (h : Edited value edits t) :
    y ∈ t.descend x ↔ x < t.size ∧ t.Below x y := by
  induction x using h.threaded.falls.induction generalizing y with
  | _ x ih =>
    cases hk : t.get? x with
    | none =>
      have hx : ¬ x < t.size := Nat.not_lt.2 (get?_eq_none_iff.1 hk)
      rw [descend, hk]
      simp [hx]
    | some k =>
      rw [h.descend_eq hk, below_iff, List.mem_cons, List.mem_flatMap]
      refine Iff.trans (or_congr_right ?_) (and_iff_right (lt_size_of_get? hk)).symm
      constructor
      · rintro ⟨⟨s, c⟩, hmem, hy⟩
        exact ⟨s, c, (h.mem_children hk).1 hmem, ((ih c ⟨k, s, hk, hmem⟩).1 hy).2⟩
      · rintro ⟨s, c, hc, hy⟩
        have hmem := (h.mem_children hk).2 hc
        exact ⟨(s, c), hmem, (ih c ⟨k, s, hk, hmem⟩).2 ⟨h.linked.child_lt_size hc, hy⟩⟩

/-- Nothing is below itself or below two children, so nothing is visited twice. -/
theorem nodup_descend (h : Edited value edits t) (x : TrackerId) : (t.descend x).Nodup := by
  induction x using h.threaded.falls.induction with
  | _ x ih =>
    cases hk : t.get? x with
    | none =>
      rw [descend, hk]
      exact List.nodup_nil
    | some k =>
      rw [h.descend_eq hk, List.nodup_cons]
      refine ⟨fun hmem => ?_, List.nodup_flatMap.2 ⟨fun entry hentry => ?_, ?_⟩⟩
      · obtain ⟨⟨s, c⟩, hc, hx⟩ := List.mem_flatMap.1 hmem
        exact h.linked.not_below_parent ((h.mem_children hk).1 hc) (h.mem_descend.1 hx).2
      · exact ih entry.2 ⟨k, entry.1, hk, hentry⟩
      · have hnames := List.pairwise_map.1 (h.nodup_children hk)
        refine hnames.imp_of_mem fun {a b} ha hb hne => ?_
        intro y hya hyb
        exact hne (h.linked.sibling_of_below ((h.mem_children hk).1 ha)
          ((h.mem_children hk).1 hb) (h.mem_descend.1 hya).2 (h.mem_descend.1 hyb).2)

/-! ## What is listed of a tracker -/

theorem located_eq (h : Edited value edits t) (x : TrackerId) :
    t.located x = (recordedOn edits x).map fun issue =>
      { path := Path.dotted (t.pathOf x), issue } := by
  unfold located
  cases hk : t.get? x with
  | none => rw [(h.untouched (get?_eq_none_iff.1 hk)).2]; rfl
  | some k =>
    rw [← (h.recorded hk).issues]
    cases hissues : k.issues <;> simp [Tracker.hasIssues, hissues]

end Edited

/-- The listing of a tracker, for every sequence of edits. -/
theorem listing_of_edits {value : Option Value} (h : Edited value edits t) (id : TrackerId) :
    (t.collect id = (t.descend id).flatMap fun x => (recordedOn edits x).map fun issue =>
      { path := Path.dotted (t.pathOf x), issue }) ∧
    (t.descend id).Nodup ∧
    (∀ x, x ∈ t.descend id ↔ id < t.size ∧ t.Below id x) ∧
    (∀ x k, t.get? x = some k →
      t.descend x = x :: k.children.flatMap (fun entry => t.descend entry.2) ∧
      Table.names k.children = (Table.names (attachedTo edits x)).eraseDups) ∧
    (t.hasIssuesBelow id = true ↔ t.collect id ≠ []) ∧
    ∀ r : Run, r.report.valid = true ↔ r.report.issues = [] := by
  refine ⟨?_, h.nodup_descend id, fun x => h.mem_descend, fun x k hk => ⟨h.descend_eq hk, ?_⟩,
    hasIssuesBelow_iff_collect t id, report_valid_iff⟩
  · rw [collect, funext h.located_eq]
  · rw [(h.recorded hk).children, Table.names_ofList]

theorem listing_of_two :
    let edits : List Edit := [.attach 0 "a" none, .record 1 ⟨"inner", []⟩, .record 0 ⟨"outer", []⟩]
    let t := edits.foldl Edit.apply (ofValue none)
    Edited none edits t ∧ (t.hasIssuesBelow 1 = true ↔ t.collect 1 ≠ []) := by
  intro edits t
  have hedited : Edited none edits t := .edit (.edit (.edit .fresh _ (by decide)) _ (by decide)) _
    (by decide)
  exact ⟨hedited, (listing_of_edits hedited 1).2.2.2.2.1⟩

/-- The tracker `2` is attached before the tracker `3`, and its issue is listed behind: `3` has
taken the place of the tracker that had its segment before. -/
theorem listing_repointed :
    let edits : List Edit := [.attach 0 "a" none, .attach 0 "b" none, .attach 0 "a" none,
      .record 2 ⟨"earlier", []⟩, .record 3 ⟨"later", []⟩]
    let t := edits.foldl Edit.apply (ofValue none)
    Edited none edits t ∧ t.child? 0 "b" = some 2 ∧ t.child? 0 "a" = some 3 ∧
      ¬ (∀ k, t.get? 0 = some k → (k.children.map (·.2)).Pairwise (· < ·)) ∧
      (t.collect 0).map (fun e => (e.path, e.issue.key)) = [("a", "later"), ("b", "earlier")] := by
  intro edits t
  have hedited : Edited none edits t := .edit (.edit (.edit (.edit (.edit .fresh _ (by decide)) _
    (by decide)) _ (by decide)) _ (by decide)) _ (by decide)
  refine ⟨hedited, by decide, by decide, fun hordered => ?_, by decide +kernel⟩
  have hchildren : [3, 2].Pairwise (· < ·) := hordered _ rfl
  exact absurd hchildren (by decide)

end Intake.TrackerTree
