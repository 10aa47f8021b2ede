import Intake.Proofs.Tracker.Resemblance
/-!
# Paths that lead to the same

A path is `Steady` at a tracker if work there does not change the value that it leads to.  So it is
with a path from a child that leads to another child, or out of the tracker that has both:

    t.child? i name = some c → s ≠ name → Steady c t path ((t.follow i (s :: rest)).bind t.value?)

Two trees agree about a path if it leads to the trackers at work themselves, or to the same steady
value.
-/

namespace Intake.TrackerTree

variable {t t' u : TrackerTree} {i j c p : TrackerId} {own : Option String} {path : Path}
  {v : Option Value} {name s first : String} {rest : List String}

/-- The tracker is the child of a name. -/
def Placed (own : Option String) (i : TrackerId) (t : TrackerTree) : Prop :=
  ∀ s, own = some s → ∃ p, t.child? p s = some i

/-- Whatever is done at the tracker, the path leads from there to the same value. -/
def Steady (i : TrackerId) (t : TrackerTree) (path : Path) (v : Option Value) : Prop :=
  ∀ t', Grows i t t' → t'.resolve i path = v

/-- A path leads to the trackers `i` and `j` themselves, or steadily to one value. -/
def Agreed (own : Option String) (i j : TrackerId) (t u : TrackerTree) (path : Path) : Prop :=
  (∃ s rest, own = some s ∧ path.segments = s :: rest) ∨ ∃ v, Steady i t path v ∧ Steady j u path v

/-- Work at a child leaves its parent as it is. -/
theorem Grows.child?_parent (hg : Grows c t t') (hl : t.Linked) (hc : t.child? i name = some c)
    (s : String) : t'.child? i s = t.child? i s := by
  have hlt := hl.child_lt hc
  exact hg.child?_eq (Nat.lt_trans hlt (hl.child_lt_size hc)) (Nat.ne_of_lt hlt) s

theorem Placed.unnamed : Placed none i t := by
  intro s hs
  cases hs

/-- Work at a tracker does not move it. -/
theorem Placed.grow (h : Placed own i t) (hl : t.Linked) (hg : Grows i t t') : Placed own i t' := by
  intro s hs
  obtain ⟨p, hp⟩ := h s hs
  exact ⟨p, (hg.child?_parent hl hp s).trans hp⟩

/-! ## Where paths lead -/

theorem resolve_eq_none (h : path.segments = []) : t.resolve i path = none := by
  rw [resolve, locateFrom_eq, Path.first?, h]
  rfl

/-- A path from a child enters at the parent, or where one from the parent does. -/
theorem Linked.resolve_child (hl : t.Linked) (hc : t.child? i name = some c)
    (hpath : path.segments = first :: rest) :
    t.resolve c path = if (t.child? i first).isSome then (t.follow i (first :: rest)).bind t.value?
      else t.resolve i path := by
  have hfirst : path.first? = some first := by rw [Path.first?, hpath]; rfl
  rw [resolve, resolve, locateFrom_eq, locateFrom_eq, hfirst, hpath, Option.bind_some,
    Option.bind_some, hl.entry?_child hc]
  split <;> rfl

/-- A path that begins with a tracker's own name leads into it. -/
theorem Linked.resolve_own (hl : t.Linked) (hp : t.child? p s = some i)
    (hpath : path.segments = s :: rest) : t.resolve i path = (t.follow i rest).bind t.value? := by
  rw [hl.resolve_child hp hpath, hp, if_pos Option.isSome_some, follow_cons, hp, Option.bind_some]

/-- What is reached through another child stays as it is. -/
theorem Grows.value_beside (hg : Grows c t t') (hl : t.Linked) (hc : t.child? i name = some c)
    (hne : s ≠ name) (rest : List String) :
    (t'.follow i (s :: rest)).bind t'.value? = (t.follow i (s :: rest)).bind t.value? := by
  rw [follow_cons, follow_cons, hg.child?_parent hl hc]
  cases hd : t.child? i s with
  | none => rfl
  | some d =>
    exact (hg.unmoved hl (hl.child_lt_size hd) (hl.not_below_sibling hd hc hne)).value_eq rest

/-! ## Steady paths -/

theorem steady_empty (h : path.segments = []) : Steady i t path none :=
  fun _ _ => resolve_eq_none h

/-- A path to another child. -/
theorem steady_sibling (hl : t.Linked) (hc : t.child? i name = some c)
    (hfirst : (t.child? i first).isSome) (hne : first ≠ name)
    (hpath : path.segments = first :: rest) :
    Steady c t path ((t.follow i (first :: rest)).bind t.value?) := by
  intro t' hg
  have hc' := (hg.child?_parent hl hc name).trans hc
  rw [hg.linked.resolve_child hc' hpath, hg.child?_parent hl hc, if_pos hfirst]
  exact hg.value_beside hl hc hne rest

/-- A path that leads out of the parent is as steady as it is there. -/
theorem steady_outside (hl : t.Linked) (hc : t.child? i name = some c)
    (hfirst : t.child? i first = none) (hpath : path.segments = first :: rest)
    (h : ∀ t', Grows c t t' → t'.resolve i path = v) : Steady c t path v := by
  intro t' hg
  have hc' := (hg.child?_parent hl hc name).trans hc
  rw [hg.linked.resolve_child hc' hpath, hg.child?_parent hl hc, hfirst]
  exact h t' hg

/-- A path that comes back to the parent under its own name, and leads to another child. -/
theorem steady_reentering (hl : t.Linked) (hc : t.child? i name = some c)
    (hfirst : t.child? i first = none) (hp : t.child? p first = some i) (hne : s ≠ name)
    (hpath : path.segments = first :: s :: rest) :
    Steady c t path ((t.follow i (s :: rest)).bind t.value?) := by
  refine steady_outside hl hc hfirst hpath fun t' hg => ?_
  have hlt := hl.child_lt hc
  -- the parent is where it was
  have hp' : t'.child? p first = some i := by
    have hlt' := Nat.lt_trans (hl.child_lt hp) hlt
    rw [hg.child?_eq (Nat.lt_trans hlt' (hl.child_lt_size hc)) (Nat.ne_of_lt hlt'), hp]
  rw [hg.linked.resolve_own hp' hpath]
  exact hg.value_beside hl hc hne rest

end Intake.TrackerTree
