import Intake.Proofs.Tracker.Scope
/-!
# Below a tracker

A tracker is below another if some segments lead down to it.  A tracker has one parent, so nothing
is below two children of a tracker, and work at one of them leaves what is below the other as it
is.  A tracker with no name twice among its children has issues below it if it has issues or one
of its children has them below (`hasIssuesBelow_iff`).
-/

namespace Intake.TrackerTree

variable {t t' : TrackerTree} {x y c : TrackerId} {s : String}

theorem follow_singleton (t : TrackerTree) (x : TrackerId) (s : String) :
    t.follow x [s] = t.child? x s := by
  rw [follow_cons]
  cases t.child? x s <;> rfl

/-- A tracker is reached from another, in no step or more. -/
def Below (t : TrackerTree) (x y : TrackerId) : Prop := ∃ segments, t.follow x segments = some y

namespace Below

theorem refl (t : TrackerTree) (x : TrackerId) : t.Below x x := ⟨[], by simp [follow]⟩

theorem head (hc : t.child? x s = some c) (h : t.Below c y) : t.Below x y := by
  obtain ⟨segments, hf⟩ := h
  exact ⟨s :: segments, by rw [follow_cons, hc, Option.bind_some, hf]⟩

theorem child (hc : t.child? x s = some c) : t.Below x c := head hc (refl t c)

theorem le (h : t.Below x y) (hl : t.Linked) : x ≤ y := by
  obtain ⟨segments, hf⟩ := h
  refine follow_induct (P := fun z => x ≤ z) (fun {z w s} hz hw => ?_) (Nat.le_refl x) hf
  exact Nat.le_trans hz (Nat.le_of_lt (hl.child_lt hw))

theorem lt_of_follow (hl : t.Linked) {segments : List String} (hne : segments ≠ [])
    (hf : t.follow x segments = some y) : x < y := by
  obtain ⟨s, rest, rfl⟩ := List.exists_cons_of_ne_nil hne
  rw [follow_cons, Option.bind_eq_some_iff] at hf
  obtain ⟨c, hc, hf⟩ := hf
  exact Nat.lt_of_lt_of_le (hl.child_lt hc) (le ⟨rest, hf⟩ hl)

/-- The last step down. -/
theorem last (h : t.Below x y) : y = x ∨ ∃ p s, t.Below x p ∧ t.child? p s = some y := by
  obtain ⟨segments, hf⟩ := h
  induction segments generalizing x with
  | nil =>
    rw [follow, List.foldlM_nil] at hf
    exact .inl (Option.some.inj hf).symm
  | cons s rest ih =>
    rw [follow_cons, Option.bind_eq_some_iff] at hf
    obtain ⟨c, hc, hf⟩ := hf
    rcases ih hf with rfl | ⟨p, s', hp, hy⟩
    · exact .inr ⟨x, s, refl t x, hc⟩
    · exact .inr ⟨p, s', head hc hp, hy⟩

/-- Where no child is lost, what was below stays below. -/
theorem mono (h : t.Below x y)
    (hchild : ∀ z s w, t.child? z s = some w → t'.child? z s = some w) : t'.Below x y := by
  obtain ⟨segments, hf⟩ := h
  induction segments generalizing x with
  | nil => exact ⟨[], hf⟩
  | cons s rest ih =>
    rw [follow_cons, Option.bind_eq_some_iff] at hf
    obtain ⟨c, hc, hf⟩ := hf
    exact head (hchild x s c hc) (ih hf)

end Below

/-- Nothing is below two children. -/
theorem Linked.sibling_of_below (hl : t.Linked) {p d : TrackerId} {s' : String}
    (hc : t.child? p s = some c) (hd : t.child? p s' = some d) (hcy : t.Below c y)
    (hdy : t.Below d y) : s = s' := by
  obtain ⟨segments, hf⟩ := hcy
  obtain ⟨segments', hf'⟩ := hdy
  have hpath : t.pathOf p ++ s :: segments = t.pathOf p ++ s' :: segments' := by
    rw [List.append_cons, ← hl.pathOf_child hc, ← hl.pathOf_follow hf, hl.pathOf_follow hf',
      hl.pathOf_child hd, ← List.append_cons]
  exact (List.cons.inj (List.append_cancel_left hpath)).1

/-- Of two children neither is below the other. -/
theorem Linked.not_below_sibling (hl : t.Linked) {p d : TrackerId} {s' : String}
    (hc : t.child? p s = some c) (hd : t.child? p s' = some d) (hne : s ≠ s') :
    ¬ t.Below c d :=
  fun h => hne (hl.sibling_of_below hc hd h (.refl t d))

theorem Linked.not_below_parent (hl : t.Linked) (hc : t.child? x s = some c) : ¬ t.Below c x :=
  fun h => absurd (h.le hl) (Nat.not_le.2 (hl.child_lt hc))

/-- There are issues below a tracker if it has some or they are below one of its children. -/
theorem hasIssuesBelow_iff (hl : t.Linked) {k : Tracker} (hk : t.get? x = some k)
    (hnodup : (Table.names k.children).Nodup) :
    t.hasIssuesBelow x = true ↔
      k.hasIssues = true ∨ ∃ s c, t.child? x s = some c ∧ t.hasIssuesBelow c = true := by
  have hchild : ∀ {s c}, (s, c) ∈ k.children → t.child? x s = some c := fun hmem =>
    (child?_of_get? hk _).trans (Table.get?_of_mem hnodup hmem)
  rw [hasIssuesBelow, hk]
  simp only [Bool.or_eq_true, List.any_eq_true]
  refine or_congr_right ⟨?_, ?_⟩
  · rintro ⟨⟨s, c⟩, hmem, hc⟩
    split at hc
    · exact ⟨s, c, hchild hmem, hc⟩
    · cases hc
  · rintro ⟨s, c, hc, hbelow⟩
    have hmem : (s, c) ∈ k.children := Table.mem_of_get? ((child?_of_get? hk s).symm.trans hc)
    exact ⟨(s, c), hmem, by rw [dif_pos ⟨hl.child_lt hc, hl.child_lt_size hc⟩]; exact hbelow⟩

/-! ## Work elsewhere -/

/-- Work at a tracker without children loses no child. -/
theorem Grows.child?_mono {id : TrackerId} (h : Grows id t t') (hbare : ∀ s, t.child? id s = none)
    {z w : TrackerId} (hw : t.child? z s = some w) : t'.child? z s = some w := by
  have hz : z ≠ id := by
    rintro rfl
    rw [hbare] at hw
    cases hw
  obtain ⟨k, hk, -⟩ := child?_eq_some hw
  rw [h.child?_eq (lt_size_of_get? hk) hz]
  exact hw

/-- What is reached in the end, if it was there before, was reached before. -/
theorem Grows.follow_old {id : TrackerId} (h : Grows id t t') {segments : List String}
    (hf : t'.follow x segments = some y) (hy : y < t.size) : t.follow x segments = some y := by
  induction segments generalizing x with
  | nil => exact hf
  | cons s rest ih =>
    rw [follow_cons, Option.bind_eq_some_iff] at hf ⊢
    obtain ⟨c, hc, hf⟩ := hf
    have hcy : c ≤ y := Below.le ⟨rest, hf⟩ h.linked
    have hlt : c < t.size := Nat.lt_of_le_of_lt hcy hy
    have hx : x < t.size := Nat.lt_trans (h.linked.child_lt hc) hlt
    exact ⟨c, (h.child?_new hx hc).resolve_right (Nat.not_le.2 hlt), ih hf⟩

/-- What is below a tracker that had no children is new. -/
theorem Grows.follow_new {id : TrackerId} (h : Grows id t t') (hbare : ∀ s, t.child? id s = none)
    (hid : id < t.size) {segments : List String} (hne : segments ≠ [])
    (hf : t'.follow id segments = some y) : t.size ≤ y := by
  obtain ⟨s, rest, rfl⟩ := List.exists_cons_of_ne_nil hne
  rw [follow_cons, Option.bind_eq_some_iff] at hf
  obtain ⟨c, hc, hf⟩ := hf
  have hle : t.size ≤ c := (h.child?_new hid hc).resolve_left fun hold => by
    rw [hbare] at hold
    cases hold
  exact Nat.le_trans hle (Below.le ⟨rest, hf⟩ h.linked)

end Intake.TrackerTree
