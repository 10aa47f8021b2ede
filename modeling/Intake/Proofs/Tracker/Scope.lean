import Intake.Proofs.Tracker.Growth
/-!
# Scopes and addresses

A look-up for a tracker enters the tree at the innermost tracker around it that has a child of
the first name, and follows the whole path from there (`locateFrom_eq`).  The trackers around it
do not change while work goes on inside of them, so neither does the place where a look-up
enters.

    t.follow entry segments = some found → t.pathOf found = t.pathOf entry ++ segments
-/

namespace Intake

theorem Path.segments_of_first? {path : Path} {first : String}
    (h : path.first? = some first) : ∃ rest, path.segments = first :: rest := by
  obtain ⟨segments⟩ := path
  cases segments with
  | nil => cases h
  | cons s rest =>
    obtain rfl : s = first := Option.some.inj h
    exact ⟨rest, rfl⟩

namespace TrackerTree

variable {t t' : TrackerTree}

/-- The child of a tracker that a segment addresses. -/
def child? (t : TrackerTree) (id : TrackerId) (segment : String) : Option TrackerId :=
  (t.get? id).bind (·.child? segment)

/-- The trackers around a tracker, the innermost first. -/
def enclosing (t : TrackerTree) (id : TrackerId) : List TrackerId :=
  (((t.get? id).bind (·.parent)).map t.outward).getD []

/-- The innermost tracker around `id` that has a child of that name. -/
def entry? (t : TrackerTree) (id : TrackerId) (first : String) : Option TrackerId :=
  (t.enclosing id).find? fun x => (t.child? x first).isSome

theorem locateFrom_eq (id : TrackerId) (path : Path) :
    t.locateFrom id path =
      path.first?.bind fun first => (t.entry? id first).bind (t.follow · path.segments) := by
  unfold locateFrom locate entry? enclosing
  cases ht : t.get? id with
  | none => cases path.first? <;> simp
  | some k => simp [child?]

theorem follow_cons (id : TrackerId) (s : String) (segments : List String) :
    t.follow id (s :: segments) = (t.child? id s).bind (t.follow · segments) := by
  simp [follow, child?]

theorem child?_eq_some {id c : TrackerId} {s : String} (h : t.child? id s = some c) :
    ∃ k, t.get? id = some k ∧ k.child? s = some c := by
  simpa [child?, Option.bind_eq_some_iff] using h

theorem child?_of_get? {id : TrackerId} {k : Tracker} (h : t.get? id = some k) (s : String) :
    t.child? id s = k.child? s := by
  simp [child?, h]

theorem child?_attach {id : TrackerId} (h : id < t.size) (segment : String)
    (value : Option Value) (s : String) :
    (t.attach id segment value).2.child? id s =
      if s = segment then some t.size else t.child? id s := by
  obtain ⟨k, hk⟩ := exists_get? h
  rw [child?, get?_attach_parent h, child?, hk]
  simp [Tracker.child?, Table.get?_put]

/-! ## Around a tracker -/

namespace Linked

theorem child_lt (h : t.Linked) {id c : TrackerId} {s : String} (hc : t.child? id s = some c) :
    id < c := by
  obtain ⟨k, hk, hc⟩ := child?_eq_some hc
  exact (h.down hk hc).1

theorem child_lt_size (h : t.Linked) {id c : TrackerId} {s : String}
    (hc : t.child? id s = some c) : c < t.size := by
  obtain ⟨k, hk, hc⟩ := child?_eq_some hc
  obtain ⟨-, child, hchild, -⟩ := h.down hk hc
  exact lt_size_of_get? hchild

/-- A tracker has one parent and one segment. -/
theorem child?_inj (h : t.Linked) {p q c : TrackerId} {s s' : String}
    (hp : t.child? p s = some c) (hq : t.child? q s' = some c) : p = q ∧ s = s' := by
  obtain ⟨k, hk, hc⟩ := child?_eq_some hp
  obtain ⟨k', hk', hc'⟩ := child?_eq_some hq
  obtain ⟨-, child, hchild, hparent, hsegment⟩ := h.down hk hc
  obtain ⟨-, child', hchild', hparent', hsegment'⟩ := h.down hk' hc'
  obtain rfl := Option.some.inj (hchild.symm.trans hchild')
  exact ⟨Option.some.inj (hparent.symm.trans hparent'),
    Option.some.inj (hsegment.symm.trans hsegment')⟩

theorem outward_eq (h : t.Linked) {id : TrackerId} (hid : id < t.size) :
    t.outward id = id :: t.enclosing id := by
  obtain ⟨k, hk⟩ := exists_get? hid
  rw [outward, enclosing, hk]
  cases hp : k.parent with
  | none => simp [hp]
  | some p => simp [hp, h.up hk hp]

theorem enclosing_eq (h : t.Linked) {id p : TrackerId} {k : Tracker} (hk : t.get? id = some k)
    (hp : k.parent = some p) : t.enclosing id = p :: t.enclosing p := by
  have hlt : p < t.size := Nat.lt_trans (h.up hk hp) (lt_size_of_get? hk)
  rw [← h.outward_eq hlt, enclosing, hk]
  simp [hp]

theorem enclosing_child (h : t.Linked) {id c : TrackerId} {s : String}
    (hc : t.child? id s = some c) : t.enclosing c = id :: t.enclosing id := by
  obtain ⟨k, hk, hc⟩ := child?_eq_some hc
  obtain ⟨-, child, hchild, hp, -⟩ := h.down hk hc
  exact h.enclosing_eq hchild hp

theorem enclosing_lt (h : t.Linked) {id x : TrackerId} (hx : x ∈ t.enclosing id) : x < id := by
  induction id using Nat.strongRecOn generalizing x with
  | _ id ih =>
    cases hk : t.get? id with
    | none => simp [enclosing, hk] at hx
    | some k =>
      cases hp : k.parent with
      | none => simp [enclosing, hk, hp] at hx
      | some p =>
        have hlt := h.up hk hp
        rw [h.enclosing_eq hk hp] at hx
        rcases List.mem_cons.1 hx with rfl | hx
        · exact hlt
        · exact Nat.lt_trans (ih p hlt hx) hlt

end Linked

theorem entry?_mem {id entry : TrackerId} {first : String} (h : t.entry? id first = some entry) :
    entry ∈ t.enclosing id ∧ ∃ c, t.child? entry first = some c := by
  unfold entry? at h
  have hsome := List.find?_some (p := fun x => (t.child? x first).isSome) h
  exact ⟨List.mem_of_find?_eq_some h, Option.isSome_iff_exists.1 hsome⟩

/-- A look-up from a child enters at the parent, or where one from the parent does. -/
theorem Linked.entry?_child (h : t.Linked) {id c : TrackerId} {s : String}
    (hc : t.child? id s = some c) (first : String) :
    t.entry? c first = if (t.child? id first).isSome then some id else t.entry? id first := by
  unfold entry?
  rw [h.enclosing_child hc, List.find?_cons]
  split <;> simp_all

/-! ## Addresses -/

theorem Linked.pathOf_child (h : t.Linked) {id c : TrackerId} {s : String}
    (hc : t.child? id s = some c) : t.pathOf c = t.pathOf id ++ [s] := by
  have hlt := h.child_lt_size hc
  have hid : id < t.size := Nat.lt_trans (h.child_lt hc) hlt
  obtain ⟨k, hk, hk'⟩ := child?_eq_some hc
  obtain ⟨-, child, hchild, -, hs⟩ := h.down hk hk'
  unfold pathOf
  rw [h.outward_eq hlt, h.enclosing_child hc, ← h.outward_eq hid]
  simp [hchild, hs]

theorem Linked.pathOf_follow (h : t.Linked) {id found : TrackerId} {segments : List String}
    (hf : t.follow id segments = some found) : t.pathOf found = t.pathOf id ++ segments := by
  induction segments generalizing id with
  | nil =>
    obtain rfl : id = found := by simpa [follow] using hf
    simp
  | cons s rest ih =>
    rw [follow_cons, Option.bind_eq_some_iff] at hf
    obtain ⟨c, hc, hf⟩ := hf
    rw [ih hf, h.pathOf_child hc]
    simp

/-- What holds of a tracker and goes from each tracker to its children holds where a path leads. -/
theorem follow_induct {P : TrackerId → Prop}
    (step : ∀ {x c : TrackerId} {s : String}, P x → t.child? x s = some c → P c)
    {id found : TrackerId} {segments : List String} (hid : P id)
    (hf : t.follow id segments = some found) : P found := by
  induction segments generalizing id with
  | nil =>
    obtain rfl : id = found := by simpa [follow] using hf
    exact hid
  | cons s rest ih =>
    rw [follow_cons, Option.bind_eq_some_iff] at hf
    obtain ⟨c, hc, hf⟩ := hf
    exact ih (step hid hc) hf

/-- A look-up leads to a tracker of the tree. -/
theorem Linked.locateFrom_lt (h : t.Linked) {id found : TrackerId} (hid : id < t.size)
    {path : Path} (hf : t.locateFrom id path = some found) : found < t.size := by
  rw [locateFrom_eq, Option.bind_eq_some_iff] at hf
  obtain ⟨first, -, hf⟩ := hf
  rw [Option.bind_eq_some_iff] at hf
  obtain ⟨entry, hentry, hf⟩ := hf
  have hlt : entry < t.size := Nat.lt_trans (h.enclosing_lt (entry?_mem hentry).1) hid
  exact follow_induct (fun _ hc => h.child_lt_size hc) hlt hf

/-! ## Links alone -/

/-- Trees in which every tracker has the same parent and the same children. -/
def SameLinks (t t' : TrackerTree) : Prop :=
  ∀ x, (t.get? x).map (fun k => (k.parent, k.children)) =
    (t'.get? x).map fun k => (k.parent, k.children)

namespace SameLinks

theorem update (t : TrackerTree) (id : TrackerId) {f : Tracker → Tracker}
    (hf : Tracker.KeepsLinks f) : SameLinks t (t.update id f) := by
  intro x
  by_cases hx : x = id
  · subst hx
    rw [get?_update_self, Option.map_map]
    congr 1
    funext k
    obtain ⟨hparent, -, hchildren⟩ := hf k
    simp [hparent, hchildren]
  · rw [get?_update_of_ne hx]

theorem child?_eq (h : SameLinks t t') (x : TrackerId) (s : String) :
    t.child? x s = t'.child? x s := by
  have hx := h x
  unfold child?
  cases hk : t.get? x <;> cases hk' : t'.get? x <;> simp_all [Tracker.child?]

theorem parent_eq (h : SameLinks t t') (x : TrackerId) :
    (t.get? x).map (·.parent) = (t'.get? x).map (·.parent) := by
  have hx := congrArg (Option.map Prod.fst) (h x)
  simpa [Option.map_map, Function.comp_def] using hx

theorem outward_eq (h : SameLinks t t') (x : TrackerId) : t.outward x = t'.outward x := by
  induction x using Nat.strongRecOn with
  | _ x ih =>
    have hx := h.parent_eq x
    rw [outward, outward]
    cases hk : t.get? x with
    | none =>
      rw [hk] at hx
      cases hk' : t'.get? x with
      | none => rfl
      | some k' => simp [hk'] at hx
    | some k =>
      rw [hk] at hx
      cases hk' : t'.get? x with
      | none => simp [hk'] at hx
      | some k' =>
        have hparent : k.parent = k'.parent := by simpa [hk'] using hx
        simp only [hparent]
        cases hp : k'.parent with
        | none => rfl
        | some p =>
          dsimp only
          split
          · next hlt => rw [ih p hlt]
          · rfl

theorem follow_eq (h : SameLinks t t') (x : TrackerId) (segments : List String) :
    t.follow x segments = t'.follow x segments := by
  induction segments generalizing x with
  | nil => rfl
  | cons s rest ih =>
    rw [follow_cons, follow_cons, h.child?_eq]
    exact congrArg _ (funext ih)

/-- What a path leads to depends on the links alone. -/
theorem locateFrom_eq (h : SameLinks t t') (x : TrackerId) (path : Path) :
    t.locateFrom x path = t'.locateFrom x path := by
  have houtward : t.outward = t'.outward := funext h.outward_eq
  have henclosing : t.enclosing x = t'.enclosing x := by
    have hx := h.parent_eq x
    unfold enclosing
    rw [houtward]
    cases hk : t.get? x <;> cases hk' : t'.get? x <;> simp_all
  have hentry : t.entry? x = t'.entry? x := by
    funext first
    unfold entry?
    rw [henclosing]
    simp only [h.child?_eq]
  have hfollow : t.follow = t'.follow := funext fun y => funext fun segments =>
    h.follow_eq y segments
  rw [TrackerTree.locateFrom_eq, TrackerTree.locateFrom_eq, hentry, hfollow]

/-- With the same values, it resolves to the same. -/
theorem resolve_eq (h : SameLinks t t') (hvalue : ∀ x, t.value? x = t'.value? x)
    (x : TrackerId) (path : Path) : t.resolve x path = t'.resolve x path := by
  rw [resolve, resolve, h.locateFrom_eq, funext hvalue]

end SameLinks

/-! ## What growth keeps -/

namespace Grows

variable {id : TrackerId}

theorem child?_eq (h : Grows id t t') {x : TrackerId} (hx : x < t.size) (hne : x ≠ id)
    (s : String) : t'.child? x s = t.child? x s := by
  unfold child?
  rw [h.frame hx hne]

theorem child?_new (h : Grows id t t') {x c : TrackerId} {s : String} (hx : x < t.size)
    (hc : t'.child? x s = some c) : t.child? x s = some c ∨ t.size ≤ c := by
  obtain ⟨k, hk⟩ := exists_get? hx
  obtain ⟨k', hk', -, -, hchild⟩ := h.place hk
  rw [child?_of_get? hk'] at hc
  rw [child?_of_get? hk]
  exact hchild hc

theorem enclosing_eq (h : Grows id t t') (hl : t.Linked) {x : TrackerId} (hx : x < t.size) :
    t'.enclosing x = t.enclosing x := by
  induction x using Nat.strongRecOn with
  | _ x ih =>
    obtain ⟨k, hk⟩ := exists_get? hx
    obtain ⟨k', hk', hp, -⟩ := h.place hk
    cases hparent : k.parent with
    | none =>
      rw [hparent] at hp
      simp [enclosing, hk, hk', hparent, hp]
    | some p =>
      have hlt := hl.up hk hparent
      rw [hparent] at hp
      rw [h.linked.enclosing_eq hk' hp, hl.enclosing_eq hk hparent,
        ih p hlt (Nat.lt_trans hlt hx)]

theorem pathOf_eq (h : Grows id t t') (hl : t.Linked) {x : TrackerId} (hx : x < t.size) :
    t'.pathOf x = t.pathOf x := by
  have hsegment : ∀ y ∈ x :: t.enclosing x,
      (t'.get? y).bind (·.segment) = (t.get? y).bind (·.segment) := by
    intro y hy
    have hy : y < t.size := by
      rcases List.mem_cons.1 hy with rfl | hy
      · exact hx
      · exact Nat.lt_trans (hl.enclosing_lt hy) hx
    obtain ⟨k, hk⟩ := exists_get? hy
    obtain ⟨k', hk', -, hs, -⟩ := h.place hk
    simp [hk, hk', hs]
  unfold pathOf
  rw [h.linked.outward_eq (Nat.lt_of_lt_of_le hx h.size), h.enclosing_eq hl hx, hl.outward_eq hx,
    List.filterMap_congr hsegment]

/-- The trackers around the place of work are as they were, and so is where look-ups from there
enter. -/
theorem entry?_eq (h : Grows id t t') (hl : t.Linked) (hid : id < t.size) (first : String) :
    t'.entry? id first = t.entry? id first := by
  unfold entry?
  rw [h.enclosing_eq hl hid]
  have hp : ∀ y ∈ t.enclosing id, t'.child? y first = t.child? y first := by
    intro y hy
    have hlt := hl.enclosing_lt hy
    exact h.child?_eq (Nat.lt_trans hlt hid) (Nat.ne_of_lt hlt) first
  generalize t.enclosing id = around at hp
  induction around with
  | nil => rfl
  | cons y rest ih =>
    simp only [List.find?_cons, hp y List.mem_cons_self]
    split
    · rfl
    · exact ih fun z hz => hp z (List.mem_cons_of_mem _ hz)

end Grows

end TrackerTree

end Intake
