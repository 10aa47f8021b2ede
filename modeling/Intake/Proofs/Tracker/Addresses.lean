import Intake.Proofs.Tracker.Collected
import Intake.Proofs.Tracker.Edits
/-!
# Addresses of trackers

In a tree that edits have made, links join a smaller and a greater tracker that know each other
(`Threaded`), so every walk along them comes to an end (`Walks`).  What an address leads to has that
address.  The other way round a tracker may have lost its address: it leads back to the tracker
exactly if neither the tracker nor one around it was replaced by a later attachment of its segment.

    t.follow root segments = some id  →  t.pathOf id = segments
    t.follow root (t.pathOf id) = some id  ↔  id < t.size ∧ ∀ x ∈ t.outward id, ¬ Reattached edits x
-/

namespace Intake.TrackerTree

variable {t : TrackerTree} {x p c : TrackerId} {s : String} {k : Tracker} {edits : List Edit}

/-- The links of a tree, entry by entry. -/
structure Threaded (t : TrackerTree) : Prop where
  top : ∃ k, t.get? root = some k ∧ k.parent = none ∧ k.segment = none
  up : ∀ {id k}, t.get? id = some k → id ≠ root →
    ∃ p s, k.parent = some p ∧ k.segment = some s ∧ p < id
  down : ∀ {id k s c}, t.get? id = some k → (s, c) ∈ k.children → id < c ∧
    ∃ child, t.get? c = some child ∧ child.parent = some id ∧ child.segment = some s

/-- One step of each walk, which goes on along the links without looking at their order.  No walk
goes on for ever, neither up nor down. -/
structure Walks (t : TrackerTree) : Prop where
  upward : WellFounded fun p id => ∃ k, t.get? id = some k ∧ k.parent = some p
  downward : WellFounded fun c id => ∃ k s, t.get? id = some k ∧ (s, c) ∈ k.children
  pathOf : ∀ {id k}, t.get? id = some k →
    t.pathOf id = (k.parent.map t.pathOf).getD [] ++ k.segment.toList
  resolveIn : ∀ {id k path first}, t.get? id = some k → path.first? = some first →
    t.resolveIn (some id) path =
      if (k.child? first).isSome then (t.follow id path.segments).bind t.value?
      else t.resolveIn k.parent path
  hasIssuesBelow : ∀ {id k}, t.get? id = some k →
    t.hasIssuesBelow id = (k.hasIssues || k.children.any fun entry => t.hasIssuesBelow entry.2)
  collect : ∀ {id k}, t.get? id = some k →
    t.collect id = t.located id ++ k.children.flatMap fun entry => t.collect entry.2

/-- A later tracker was attached to the same parent with the same segment. -/
def Reattached (edits : List Edit) (x : TrackerId) : Prop :=
  ∃ p s y, origin? edits x = some (p, s) ∧ x < y ∧ origin? edits y = some (p, s)

/-! ## The walks step by step -/

theorem follow_concat (t : TrackerTree) (x : TrackerId) (segments : List String) (s : String) :
    t.follow x (segments ++ [s]) = (t.follow x segments).bind (t.child? · s) := by
  simp only [follow, List.foldlM_append]
  refine congrArg _ (funext fun y => ?_)
  simp [child?]

namespace Linked

theorem pathOf_eq (hl : t.Linked) (hk : t.get? x = some k) :
    t.pathOf x = (k.parent.map t.pathOf).getD [] ++ k.segment.toList := by
  have hself : t.pathOf x =
      ((t.enclosing x).filterMap fun i => (t.get? i).bind (·.segment)).reverse ++
        k.segment.toList := by
    rw [pathOf, hl.outward_eq (lt_size_of_get? hk), List.filterMap_cons, hk, Option.bind_some]
    cases k.segment <;> simp
  rw [hself, enclosing, hk, Option.bind_some]
  cases k.parent <;> rfl

theorem locate_eq (t : TrackerTree) (scope : Option TrackerId) {path : Path} {first : String}
    (hfirst : path.first? = some first) :
    t.locate scope path = (((scope.map t.outward).getD []).find? fun y =>
      (t.child? y first).isSome).bind (t.follow · path.segments) := by
  simp [locate, hfirst, child?]

theorem resolveIn_eq (hl : t.Linked) (hk : t.get? x = some k) {path : Path} {first : String}
    (hfirst : path.first? = some first) :
    t.resolveIn (some x) path =
      if (k.child? first).isSome then (t.follow x path.segments).bind t.value?
      else t.resolveIn k.parent path := by
  have houter : t.enclosing x = (k.parent.map t.outward).getD [] := by
    rw [enclosing, hk, Option.bind_some]
  rw [resolveIn, resolveIn, locate_eq t _ hfirst, locate_eq t _ hfirst, Option.map_some,
    Option.getD_some, hl.outward_eq (lt_size_of_get? hk), List.find?_cons, child?_of_get? hk,
    ← houter]
  split
  · next hchild => rw [if_pos hchild, Option.bind_some]
  · next hchild => rw [if_neg (by simp [hchild])]

end Linked

namespace Threaded

theorem climbs (h : t.Threaded) :
    WellFounded fun p id => ∃ k, t.get? id = some k ∧ k.parent = some p := by
  refine Subrelation.wf (r := (· < ·)) ?_ Nat.lt_wfRel.wf
  rintro p id ⟨k, hk, hp⟩
  by_cases hid : id = root
  · obtain ⟨top, htop, hnone, -⟩ := h.top
    subst hid
    obtain rfl := Option.some.inj (hk.symm.trans htop)
    rw [hnone] at hp
    cases hp
  · obtain ⟨q, -, hq, -, hlt⟩ := h.up hk hid
    obtain rfl := Option.some.inj (hp.symm.trans hq)
    exact hlt

/-- What is left above a tracker in number gets less on the way down. -/
theorem falls (h : t.Threaded) :
    WellFounded fun c id => ∃ k s, t.get? id = some k ∧ (s, c) ∈ k.children := by
  refine Subrelation.wf (r := InvImage (· < ·) (t.size - ·)) ?_ (InvImage.wf _ Nat.lt_wfRel.wf)
  rintro c id ⟨k, s, hk, hmem⟩
  obtain ⟨hlt, child, hchild, -⟩ := h.down hk hmem
  exact Nat.sub_lt_sub_left (Nat.lt_trans hlt (lt_size_of_get? hchild)) hlt

end Threaded

namespace Edited

variable {value : Option Value}

theorem threaded (h : Edited value edits t) : t.Threaded := by
  have hup : ∀ {id k}, t.get? id = some k → id ≠ root →
      ∃ p s, k.parent = some p ∧ k.segment = some s ∧ p < id := by
    intro id k hk hid
    obtain ⟨p, s, ho⟩ := h.origin_of_pos (lt_size_of_get? hk) hid
    obtain ⟨k', hk', hp, hs⟩ := h.exists_of_origin ho
    obtain rfl := Option.some.inj (hk.symm.trans hk')
    exact ⟨p, s, hp, hs, h.linked.up hk hp⟩
  refine ⟨?_, hup, fun {id k s c} hk hmem => ?_⟩
  · have hpos : 0 < t.size := h.size_eq ▸ Nat.succ_pos _
    obtain ⟨k, hk⟩ := exists_get? hpos
    exact ⟨k, hk, (h.recorded hk).parent, (h.recorded hk).segment⟩
  · exact h.linked.down hk (Table.get?_of_mem (h.nodup_children hk) hmem)

theorem walks (h : Edited value edits t) : t.Walks where
  upward := h.threaded.climbs
  downward := h.threaded.falls
  pathOf hk := h.linked.pathOf_eq hk
  resolveIn hk hfirst := h.linked.resolveIn_eq hk hfirst
  hasIssuesBelow {id k} hk := by
    have hentry : ∀ entry ∈ k.children,
        (if _h : id < entry.2 ∧ entry.2 < t.size then t.hasIssuesBelow entry.2 else false) =
          t.hasIssuesBelow entry.2 := by
      intro entry hmem
      obtain ⟨hlt, child, hchild, -⟩ := h.threaded.down hk hmem
      exact dif_pos ⟨hlt, lt_size_of_get? hchild⟩
    rw [TrackerTree.hasIssuesBelow, hk, Bool.eq_iff_iff]
    simp only [Bool.or_eq_true, List.any_eq_true]
    refine or_congr_right (exists_congr fun entry => and_congr_right fun hmem => ?_)
    rw [hentry entry hmem]
  collect {id k} hk := by
    rw [TrackerTree.collect, h.linked.descend_eq hk (h.nodup_children hk), List.flatMap_cons,
      List.flatMap_assoc]
    rfl

/-! ## There and back -/

theorem child?_iff (h : Edited value edits t) :
    t.child? p s = some c ↔ origin? edits c = some (p, s) ∧ ¬ Reattached edits c := by
  have hlast : ∀ {k}, t.get? p = some k → (k.child? s = some c ↔
      origin? edits c = some (p, s) ∧ ∀ y, origin? edits y = some (p, s) → y ≤ c) := by
    intro k hk
    rw [Tracker.child?, (h.recorded hk).children]
    exact get?_attachedTo
  have hreattached : origin? edits c = some (p, s) →
      ((∀ y, origin? edits y = some (p, s) → y ≤ c) ↔ ¬ Reattached edits c) := by
    intro ho
    constructor
    · rintro hmax ⟨q, s', y, hq, hlt, hy⟩
      rw [ho] at hq
      exact Nat.not_le.2 hlt (hmax y (hq ▸ hy))
    · intro hnot y hy
      by_contra hlt
      exact hnot ⟨p, s, y, ho, Nat.not_le.1 hlt, hy⟩
  constructor
  · intro hc
    obtain ⟨k, hk, hc⟩ := child?_eq_some hc
    obtain ⟨ho, hmax⟩ := (hlast hk).1 hc
    exact ⟨ho, (hreattached ho).1 hmax⟩
  · rintro ⟨ho, hnot⟩
    obtain ⟨child, hchild, hp, -⟩ := h.exists_of_origin ho
    obtain ⟨k, hk⟩ := exists_get? (Nat.lt_trans (h.linked.up hchild hp) (lt_size_of_get? hchild))
    rw [child?_of_get? hk]
    exact (hlast hk).2 ⟨ho, (hreattached ho).2 hnot⟩

/-- By induction on the number of the tracker, whose parent has a smaller one. -/
theorem follow_pathOf (h : Edited value edits t) (hx : x < t.size) :
    t.follow root (t.pathOf x) = some x ↔ ∀ y ∈ t.outward x, ¬ Reattached edits y := by
  induction x using Nat.strongRecOn with
  | _ x ih =>
    obtain ⟨k, hk⟩ := exists_get? hx
    have hself := h.linked.outward_eq hx
    by_cases hroot : x = root
    · subst hroot
      obtain ⟨top, htop, hp, hs⟩ := h.threaded.top
      have hpath : t.pathOf root = [] := by rw [h.linked.pathOf_eq htop, hp, hs]; rfl
      have hnone : t.enclosing root = [] := by rw [enclosing, htop, Option.bind_some, hp]; rfl
      rw [hself, hnone, hpath]
      refine ⟨fun _ y hy => ?_, fun _ => rfl⟩
      rw [List.mem_singleton.1 hy]
      rintro ⟨q, s, y, hq, -, -⟩
      cases hq
    · obtain ⟨p, s, ho⟩ := h.origin_of_pos hx hroot
      obtain ⟨k', hk', hp, hs⟩ := h.exists_of_origin ho
      obtain rfl := Option.some.inj (hk.symm.trans hk')
      have hlt := h.linked.up hk hp
      have hpath : t.pathOf x = t.pathOf p ++ [s] := by rw [h.linked.pathOf_eq hk, hp, hs]; rfl
      have houtward : t.outward x = x :: t.outward p := by
        rw [hself, h.linked.enclosing_eq hk hp, h.linked.outward_eq (Nat.lt_trans hlt hx)]
      have hstep : t.follow root (t.pathOf x) = some x ↔
          t.follow root (t.pathOf p) = some p ∧ t.child? p s = some x := by
        rw [hpath, follow_concat, Option.bind_eq_some_iff]
        constructor
        · rintro ⟨q, hq, hc⟩
          -- only the parent has the tracker as a child
          obtain ⟨ho', -⟩ := h.child?_iff.1 hc
          obtain rfl : p = q := (Prod.mk.inj (Option.some.inj (ho.symm.trans ho'))).1
          exact ⟨hq, hc⟩
        · rintro ⟨hq, hc⟩
          exact ⟨p, hq, hc⟩
      rw [hstep, ih p hlt (Nat.lt_trans hlt hx), h.child?_iff, houtward, List.forall_mem_cons]
      constructor
      · rintro ⟨haround, -, hnot⟩
        exact ⟨hnot, haround⟩
      · rintro ⟨hnot, haround⟩
        exact ⟨haround, ho, hnot⟩

end Edited

/-- The arena of trackers and their addresses, for every sequence of edits. -/
theorem addresses_of_edits {value : Option Value} (h : Edited value edits t) :
    t.Threaded ∧ t.Walks ∧
    (∀ id segments, t.follow root segments = some id → t.pathOf id = segments) ∧
    ∀ id, t.follow root (t.pathOf id) = some id ↔
      id < t.size ∧ ∀ x ∈ t.outward id, ¬ Reattached edits x := by
  have htop : t.pathOf root = [] := by
    obtain ⟨k, hk, hp, hs⟩ := h.threaded.top
    rw [h.linked.pathOf_eq hk, hp, hs]
    rfl
  refine ⟨h.threaded, h.walks, fun id segments hf => ?_, fun id => ?_⟩
  · rw [h.linked.pathOf_follow hf, htop, List.nil_append]
  · constructor
    · intro hf
      have hid : id < t.size := by
        have hpos : root < t.size := h.size_eq ▸ Nat.succ_pos _
        exact follow_induct (fun _ hc => h.linked.child_lt_size hc) hpos hf
      exact ⟨hid, (h.follow_pathOf hid).1 hf⟩
    · rintro ⟨hid, hnot⟩
      exact (h.follow_pathOf hid).2 hnot

/-- A segment attached a second time: what is under the first tracker has lost its address. -/
theorem addresses_of_reattached :
    let edits : List Edit := [.attach 0 "a" none, .attach 1 "b" none, .attach 0 "a" none]
    let t := edits.foldl Edit.apply (ofValue none)
    Edited none edits t ∧ t.pathOf 2 = ["a", "b"] ∧ t.follow root ["a", "b"] = none ∧
      ∃ x ∈ t.outward 2, Reattached edits x := by
  intro edits t
  have hedited : Edited none edits t := .edit (.edit (.edit .fresh _ (by decide)) _ (by decide)) _
    (by decide)
  obtain ⟨-, hwalks, -, haddress⟩ := addresses_of_edits hedited
  have hroot : t.pathOf 0 = [] := by
    rw [hwalks.pathOf (show t.get? 0 = some _ from rfl)]
    rfl
  have hfirst : t.pathOf 1 = ["a"] := by
    rw [hwalks.pathOf (show t.get? 1 = some _ from rfl)]
    exact congrArg (· ++ ["a"]) hroot
  have hpath : t.pathOf 2 = ["a", "b"] := by
    rw [hwalks.pathOf (show t.get? 2 = some _ from rfl)]
    exact congrArg (· ++ ["b"]) hfirst
  have hlost : t.follow root ["a", "b"] = none := by decide
  refine ⟨hedited, hpath, hlost, ?_⟩
  by_contra hnone
  have hfound := (haddress 2).2 ⟨by decide, fun x hx hre => hnone ⟨x, hx, hre⟩⟩
  rw [hpath, hlost] at hfound
  cases hfound

end Intake.TrackerTree
