import Mathlib.Data.List.Forall2
import Intake.Proofs.Tracker.Resemblance
/-!
# The same issues elsewhere

Trackers that resemble each other exactly have the same issues on them and below, in the same order.
Those stand at the same addresses, so that their paths differ in nothing but what is in front of
them (`Resembles.collect_eq`):

    u.pathOf j = [] → t.collect i = u.collectUnder (t.pathOf i) j
-/

namespace Intake

/-- What a tracker shows: its value, its issues, and the names of its children. -/
def Tracker.content (k : Tracker) : Option Value × List Issue × List String :=
  (k.value, k.issues, Table.names k.children)

theorem Issue.Resembles.eq {a b : Issue} (h : Issue.Resembles Eq a b) : a = b := by
  cases h with
  | same => rfl
  | members h => rw [h]

namespace Tracker.Resembles

variable {k l : Tracker}

theorem issues_eq (h : Tracker.Resembles Eq k l) : k.issues = l.issues := by
  have hissues := h.issues.imp fun _ _ => Issue.Resembles.eq
  rwa [List.forall₂_eq_eq_eq] at hissues

theorem content_eq (h : Tracker.Resembles Eq k l) : k.content = l.content := by
  rw [content, content, h.value, h.issues_eq, h.names]

end Tracker.Resembles

namespace TrackerTree

variable {t u : TrackerTree} {i j x : TrackerId} {k : Tracker}

/-- The issues of a tracker and of all below it, with some segments in front of every path. -/
def collectUnder (front : List String) (t : TrackerTree) (id : TrackerId) : List LocatedIssue :=
  (t.descend id).flatMap fun x =>
    (((t.get? x).map (·.issues)).getD []).map fun issue =>
      { path := Path.dotted (front ++ t.pathOf x), issue }

theorem collectUnder_nil (t : TrackerTree) (id : TrackerId) :
    t.collectUnder [] id = t.collect id := by
  refine congrArg (List.flatMap · _) (funext fun x => ?_)
  unfold located
  cases t.get? x with
  | none => rfl
  | some k =>
    cases hissues : k.issues with
    | nil => simp [Tracker.hasIssues, hissues]
    | cons issue rest => simp [Tracker.hasIssues, hissues]

/-- A tracker comes first, and then what is below its children. -/
theorem Linked.descend_eq (hl : t.Linked) (hk : t.get? x = some k)
    (hnodup : (Table.names k.children).Nodup) :
    t.descend x = x :: k.children.flatMap fun entry => t.descend entry.2 := by
  rw [descend, hk]
  refine congrArg (x :: ·) (congrArg List.flatten (List.map_congr_left fun entry hentry => ?_))
  have hc : t.child? x entry.1 = some entry.2 :=
    (child?_of_get? hk _).trans (Table.get?_of_mem hnodup hentry)
  rw [dif_pos ⟨hl.child_lt hc, hl.child_lt_size hc⟩]

namespace Resembles

/-- The same addresses are visited in the same order, and there are the same issues. -/
theorem descend (h : Resembles Eq t u i j) (ht : t.Linked) (hu : u.Linked) :
    List.Forall₂ (fun x y => ∃ address, t.follow i address = some x ∧ u.follow j address = some y ∧
      (t.get? x).map (·.issues) = (u.get? y).map (·.issues)) (t.descend i) (u.descend j) := by
  induction h with
  | @mk i j k l left right alike nodup inner ih =>
    have hnames :
        List.Forall₂ (fun a b : String × TrackerId => a.1 = b.1) k.children l.children := by
      have hnames : List.Forall₂ Eq (Table.names k.children) (Table.names l.children) := by
        rw [List.forall₂_eq_eq_eq]
        exact alike.names
      rwa [Table.names, Table.names, List.forall₂_map_left_iff,
        List.forall₂_map_right_iff] at hnames
    have hchildren : List.Forall₂ (fun a b : String × TrackerId =>
        t.child? i a.1 = some a.2 ∧ u.child? j a.1 = some b.2) k.children l.children := by
      refine List.forall₂_iff_zip.2 ⟨hnames.length_eq, fun {a b} hab => ?_⟩
      obtain ⟨ha, hb⟩ := List.of_mem_zip hab
      rw [child?_of_get? left, child?_of_get? right]
      refine ⟨Table.get?_of_mem nodup.1 ha, ?_⟩
      rw [List.forall₂_zip hnames hab]
      exact Table.get?_of_mem nodup.2 hb
    rw [ht.descend_eq left nodup.1, hu.descend_eq right nodup.2]
    refine .cons ⟨[], rfl, rfl, ?_⟩ (List.rel_flatMap hchildren ?_)
    · rw [left, right, Option.map_some, Option.map_some, alike.issues_eq]
    · rintro ⟨s, c⟩ ⟨s', d⟩ ⟨hc, hd⟩
      refine (ih hc hd).imp fun x y hxy => ?_
      obtain ⟨address, hx, hy, hissues⟩ := hxy
      refine ⟨s :: address, ?_, ?_, hissues⟩
      · rw [follow_cons, hc, Option.bind_some, hx]
      · rw [follow_cons, hd, Option.bind_some, hy]

/-- The same issues are collected, whose paths have the address of the tracker in front. -/
theorem collect_eq (h : Resembles Eq t u i j) (ht : t.Linked) (hu : u.Linked)
    (hroot : u.pathOf j = []) : t.collect i = u.collectUnder (t.pathOf i) j := by
  rw [← collectUnder_nil, ← List.forall₂_eq_eq_eq]
  refine List.rel_flatMap (h.descend ht hu) fun x y hxy => ?_
  obtain ⟨address, hx, hy, hissues⟩ := hxy
  rw [ht.pathOf_follow hx, hu.pathOf_follow hy, hroot, hissues, List.forall₂_eq_eq_eq]
  rfl

end Resembles

end TrackerTree

end Intake
