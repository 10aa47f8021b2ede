import Mathlib.Data.List.Forall2
import Intake.Proofs.Tracker.Below
/-!
# Subtrees that look the same

Two trackers of two trees resemble each other if they carry the same, have children under the same
names, and if those children resemble each other in turn.  Numbers, owners and whatever stands
around the two trackers do not matter.

What is a matter of order is left to a relation `R`: the names of the children, and the names in
an issue of an object about its members, may differ as `R` allows.

    t.Resembles R u i j → Option.Rel (Tracker.Resembles R) (t.seen? i address) (u.seen? j address)

A subtree that does not move (`Unmoved`) resembles whatever it resembled before.
-/

namespace Intake

/-- A relation between lists that hold the same names, kept by what is done to both of them. -/
structure Shuffles (R : List String → List String → Prop) : Prop where
  refl : ∀ l, R l l
  perm : ∀ {l l'}, R l l' → l.Perm l'
  filter : ∀ (p : String → Bool) {l l'}, R l l' → R (l.filter p) (l'.filter p)
  concat : ∀ (s : String) {l l'}, R l l' → R (l ++ [s]) (l' ++ [s])

theorem shuffles_eq : Shuffles Eq :=
  ⟨fun _ => rfl, fun h => h ▸ .refl _, fun _ _ _ h => h ▸ rfl, fun _ _ _ h => h ▸ rfl⟩

theorem shuffles_perm : Shuffles List.Perm :=
  ⟨.refl, id, fun p _ _ h => h.filter p, fun _ _ _ h => h.append_right _⟩

theorem Shuffles.mem_iff {R : List String → List String → Prop} (hR : Shuffles R)
    {l l' : List String} (h : R l l') {s : String} : s ∈ l ↔ s ∈ l' :=
  (hR.perm h).mem_iff

/-- Two issues are the same, or name the members with issues each in its own order. -/
inductive Issue.Resembles (R : List String → List String → Prop) : Issue → Issue → Prop
  | same (issue : Issue) : Resembles R issue issue
  | members {names names' : List String} (h : R names names') :
      Resembles R (.of "object/members" [("fields", .list (names.map .str))])
        (.of "object/members" [("fields", .list (names'.map .str))])

/-- Two trackers show the same. -/
structure Tracker.Resembles (R : List String → List String → Prop) (k l : Tracker) : Prop where
  value : k.value = l.value
  issues : List.Forall₂ (Issue.Resembles R) k.issues l.issues
  names : R (Table.names k.children) (Table.names l.children)

namespace Tracker

variable {R : List String → List String → Prop} {k l : Tracker}

theorem resembles_issues (issues : List Issue) :
    List.Forall₂ (Issue.Resembles R) issues issues :=
  List.forall₂_same.2 fun issue _ => .same issue

theorem Resembles.hasIssues_eq (h : Resembles R k l) : k.hasIssues = l.hasIssues := by
  have hissues := h.issues
  unfold hasIssues
  generalize k.issues = a, l.issues = b at hissues
  cases hissues <;> rfl

end Tracker

namespace TrackerTree

variable {R : List String → List String → Prop} {t t' t'' u u' : TrackerTree}
  {i j x y : TrackerId}

/-- The tracker at an address below another. -/
def seen? (t : TrackerTree) (x : TrackerId) (address : List String) : Option Tracker :=
  (t.follow x address).bind t.get?

/-- The trackers `i` of `t` and `j` of `u`, and all below them, show the same. -/
inductive Resembles (R : List String → List String → Prop) (t u : TrackerTree) :
    TrackerId → TrackerId → Prop
  | mk {i j : TrackerId} {k l : Tracker} (left : t.get? i = some k) (right : u.get? j = some l)
      (alike : k.Resembles R l)
      (nodup : (Table.names k.children).Nodup ∧ (Table.names l.children).Nodup)
      (inner : ∀ {s c d}, t.child? i s = some c → u.child? j s = some d → Resembles R t u c d) :
      Resembles R t u i j

/-! ## Subtrees that do not move -/

/-- A tracker and all below it stay as they are. -/
def Unmoved (t t' : TrackerTree) (x : TrackerId) : Prop :=
  ∀ y, t.Below x y → t'.get? y = t.get? y

theorem child?_congr (h : t'.get? x = t.get? x) (s : String) : t'.child? x s = t.child? x s := by
  rw [child?, child?, h]

namespace Unmoved

theorem refl (t : TrackerTree) (x : TrackerId) : Unmoved t t x :=
  fun _ _ => rfl

theorem get (h : Unmoved t t' x) : t'.get? x = t.get? x :=
  h x (.refl t x)

theorem child (h : Unmoved t t' x) {s : String} {c : TrackerId} (hc : t.child? x s = some c) :
    Unmoved t t' c :=
  fun y hy => h y (hy.head hc)

theorem follow_eq (h : Unmoved t t' x) (address : List String) :
    t'.follow x address = t.follow x address := by
  induction address generalizing x with
  | nil => rfl
  | cons s rest ih =>
    rw [follow_cons, follow_cons, child?_congr h.get]
    cases hc : t.child? x s with
    | none => rfl
    | some c => exact ih (h.child hc)

theorem below_iff (h : Unmoved t t' x) : t'.Below x y ↔ t.Below x y :=
  exists_congr fun address => by rw [h.follow_eq]

theorem symm (h : Unmoved t t' x) : Unmoved t' t x :=
  fun y hy => (h y (h.below_iff.1 hy)).symm

theorem trans (h : Unmoved t t' x) (h' : Unmoved t' t'' x) : Unmoved t t'' x :=
  fun y hy => (h' y (h.below_iff.2 hy)).trans (h y hy)

/-- What is read below stays the same. -/
theorem value_eq (h : Unmoved t t' x) (address : List String) :
    (t'.follow x address).bind t'.value? = (t.follow x address).bind t.value? := by
  rw [h.follow_eq]
  cases hy : t.follow x address with
  | none => rfl
  | some y =>
    rw [Option.bind_some, Option.bind_some, value?, value?, h y ⟨address, hy⟩]

end Unmoved

/-- Work elsewhere. -/
theorem Grows.unmoved {id : TrackerId} (h : Grows id t t') (hl : t.Linked) (hx : x < t.size)
    (hid : ¬ t.Below x id) : Unmoved t t' x := by
  intro y hy
  have hlt : y < t.size := by
    rcases hy.last with rfl | ⟨p, s, -, hc⟩
    · exact hx
    · exact hl.child_lt_size hc
  exact h.frame hlt fun he => hid (he ▸ hy)

/-- Work at a child that has just been attached leaves the others as they are. -/
theorem Linked.beside_attached (hl : t.Linked) (hi : i < t.size) {s : String} {v : Option Value}
    (hg : Grows t.size (t.attach i s v).2 t') :
    (∀ s', t'.child? i s' = if s' = s then some t.size else t.child? i s') ∧
      ∀ s', s' ≠ s → ∀ c, t.child? i s' = some c → Unmoved t t' c := by
  have hattach : Grows i t (t.attach i s v).2 := .attach hl hi s v
  have hchild := child?_attach hi s v
  have hsize : i < (t.attach i s v).2.size := Nat.lt_of_lt_of_le hi hattach.size
  refine ⟨fun s' => ?_, fun s' hne c hc => ?_⟩
  · rw [hg.child?_eq hsize (Nat.ne_of_lt hi), hchild]
  · have hc' : (t.attach i s v).2.child? i s' = some c := (hchild s').trans ((if_neg hne).trans hc)
    have hs : (t.attach i s v).2.child? i s = some t.size := (hchild s).trans (if_pos rfl)
    exact (hattach.unmoved hl (hl.child_lt_size hc) (hl.not_below_parent hc)).trans
      (hg.unmoved hattach.linked (hattach.linked.child_lt_size hc')
        (hattach.linked.not_below_sibling hc' hs hne))

/-! ## What resembling trackers show -/

namespace Resembles

theorem value?_eq (h : Resembles R t u i j) : t.value? i = u.value? j := by
  obtain ⟨left, right, alike, -, -⟩ := h
  rw [value?, value?, left, right]
  exact alike.value

theorem hasIssues_eq (h : Resembles R t u i j) : t.hasIssues i = u.hasIssues j := by
  obtain ⟨left, right, alike, -, -⟩ := h
  rw [hasIssues, hasIssues, left, right]
  exact alike.hasIssues_eq

/-- The children of a name resemble each other. -/
theorem child (hR : Shuffles R) (h : Resembles R t u i j) (s : String) :
    Option.Rel (Resembles R t u) (t.child? i s) (u.child? j s) := by
  obtain ⟨left, right, alike, -, inner⟩ := h
  have hiff : t.child? i s = none ↔ u.child? j s = none := by
    rw [child?_of_get? left, child?_of_get? right]
    exact Table.get?_eq_none_iff.trans
      ((not_congr (hR.mem_iff alike.names)).trans Table.get?_eq_none_iff.symm)
  cases hc : t.child? i s with
  | none =>
    rw [hiff.1 hc]
    exact .none
  | some c =>
    cases hd : u.child? j s with
    | none =>
      rw [hiff.2 hd] at hc
      cases hc
    | some d => exact .some (inner hc hd)

theorem follow (hR : Shuffles R) (h : Resembles R t u i j) (address : List String) :
    Option.Rel (Resembles R t u) (t.follow i address) (u.follow j address) := by
  induction address generalizing i j with
  | nil => exact .some h
  | cons s rest ih =>
    rw [follow_cons, follow_cons]
    have hs := h.child hR s
    generalize t.child? i s = x, u.child? j s = y at hs
    cases hs with
    | none => exact .none
    | some hcd => exact ih hcd

/-- What is read below is the same. -/
theorem value_eq (hR : Shuffles R) (h : Resembles R t u i j) (address : List String) :
    (t.follow i address).bind t.value? = (u.follow j address).bind u.value? := by
  have hrel := h.follow hR address
  generalize t.follow i address = x, u.follow j address = y at hrel
  cases hrel with
  | none => rfl
  | some hxy => exact hxy.value?_eq

/-- At every address below the trackers show the same. -/
theorem seen (hR : Shuffles R) (h : Resembles R t u i j) (address : List String) :
    Option.Rel (Tracker.Resembles R) (t.seen? i address) (u.seen? j address) := by
  have hrel := h.follow hR address
  unfold seen?
  generalize t.follow i address = x, u.follow j address = y at hrel
  cases hrel with
  | none => exact .none
  | some hxy =>
    obtain ⟨left, right, alike, -, -⟩ := hxy
    rw [Option.bind_some, Option.bind_some, left, right]
    exact .some alike

theorem hasIssuesBelow_eq (hR : Shuffles R) (h : Resembles R t u i j) (ht : t.Linked)
    (hu : u.Linked) : t.hasIssuesBelow i = u.hasIssuesBelow j := by
  induction h with
  | @mk i j k l left right alike nodup inner ih =>
    have hchild := child hR (.mk left right alike nodup inner)
    rw [Bool.eq_iff_iff, hasIssuesBelow_iff ht left nodup.1, hasIssuesBelow_iff hu right nodup.2,
      alike.hasIssues_eq]
    refine or_congr_right (exists_congr fun s => ?_)
    have hs := hchild s
    constructor
    · rintro ⟨c, hc, hbelow⟩
      rw [hc] at hs
      obtain ⟨d, hd⟩ : ∃ d, u.child? j s = some d := by
        generalize u.child? j s = y at hs
        cases hs
        exact ⟨_, rfl⟩
      exact ⟨d, hd, ih hc hd ▸ hbelow⟩
    · rintro ⟨d, hd, hbelow⟩
      rw [hd] at hs
      obtain ⟨c, hc⟩ : ∃ c, t.child? i s = some c := by
        generalize t.child? i s = x at hs
        cases hs
        exact ⟨_, rfl⟩
      exact ⟨c, hc, (ih hc hd).symm ▸ hbelow⟩

/-! ## What keeps a resemblance -/

/-- The subtrees do not move. -/
theorem move (h : Resembles R t u i j) (ht : Unmoved t t' i) (hu : Unmoved u u' j) :
    Resembles R t' u' i j := by
  induction h with
  | @mk i j k l left right alike nodup inner ih =>
    refine .mk (ht.get.trans left) (hu.get.trans right) alike nodup fun {s c d} hc hd => ?_
    have hc : t.child? i s = some c := (child?_congr ht.get s).symm.trans hc
    have hd : u.child? j s = some d := (child?_congr hu.get s).symm.trans hd
    exact ih hc hd (ht.child hc) (hu.child hd)

/-- What the two trackers carry changes alike. -/
theorem update (h : Resembles R t u i j) (ht : t.Linked) (hu : u.Linked) {f g : Tracker → Tracker}
    (hf : Tracker.KeepsLinks f) (hg : Tracker.KeepsLinks g)
    (hfg : ∀ k l, Tracker.Resembles R k l → (f k).value = (g l).value ∧
      List.Forall₂ (Issue.Resembles R) (f k).issues (g l).issues) :
    Resembles R (t.update i f) (u.update j g) i j := by
  obtain @⟨_, _, k, l, left, right, alike, nodup, inner⟩ := h
  have hleft : (t.update i f).get? i = some (f k) := by
    rw [get?_update_self, left, Option.map_some]
  have hright : (u.update j g).get? j = some (g l) := by
    rw [get?_update_self, right, Option.map_some]
  obtain ⟨-, -, hfc⟩ := hf k
  obtain ⟨-, -, hgc⟩ := hg l
  obtain ⟨hvalue, hissues⟩ := hfg k l alike
  refine .mk hleft hright ⟨hvalue, hissues, ?_⟩ ?_ fun {s c d} hc hd => ?_
  · rw [hfc, hgc]
    exact alike.names
  · rw [hfc, hgc]
    exact nodup
  · have hc : t.child? i s = some c := by
      rwa [child?_of_get? hleft, Tracker.child?, hfc, ← Tracker.child?, ← child?_of_get? left] at hc
    have hd : u.child? j s = some d := by
      rwa [child?_of_get? hright, Tracker.child?, hgc, ← Tracker.child?,
        ← child?_of_get? right] at hd
    exact (inner hc hd).move
      ((Grows.update_of_links ht i hf).unmoved ht (ht.child_lt_size hc) (ht.not_below_parent hc))
      ((Grows.update_of_links hu j hg).unmoved hu (hu.child_lt_size hd) (hu.not_below_parent hd))

/-- Both trackers are given a child of the same name, and the two children come to resemble each
other. -/
theorem attach (hR : Shuffles R) (h : Resembles R t u i j) (ht : t.Linked) (hu : u.Linked)
    {s : String} {v w : Option Value} (hg : Grows t.size (t.attach i s v).2 t')
    (hg' : Grows u.size (u.attach j s w).2 u') (hnew : Resembles R t' u' t.size u.size) :
    Resembles R t' u' i j := by
  obtain @⟨_, _, k, l, left, right, alike, nodup, inner⟩ := h
  -- one side at a time
  have hside : ∀ {t t' : TrackerTree} {i : TrackerId} {k : Tracker} {v : Option Value},
      t.Linked → t.get? i = some k → Grows t.size (t.attach i s v).2 t' →
      t'.get? i = some { k with children := Table.put s t.size k.children } ∧
        ∀ s', s' ≠ s → ∀ c, t.child? i s' = some c → Unmoved t t' c := by
    intro t t' i k v ht hk hg
    have hi := lt_size_of_get? hk
    have hsize : i < (t.attach i s v).2.size :=
      Nat.lt_of_lt_of_le hi (Grows.attach ht hi s v).size
    refine ⟨?_, (ht.beside_attached hi hg).2⟩
    rw [hg.frame hsize (Nat.ne_of_lt hi), get?_attach_parent hi, hk, Option.map_some]
  obtain ⟨hleft, htm⟩ := hside ht left hg
  obtain ⟨hright, hum⟩ := hside hu right hg'
  refine .mk hleft hright ⟨alike.value, alike.issues, ?_⟩
    ⟨Table.nodup_put nodup.1, Table.nodup_put nodup.2⟩ fun {s' c d} hc hd => ?_
  · by_cases hs : s ∈ Table.names k.children
    · rw [Table.names_put_of_contains _ _ _ hs,
        Table.names_put_of_contains _ _ _ ((hR.mem_iff alike.names).1 hs)]
      exact alike.names
    · rw [Table.names_put_of_not_mem _ _ _ hs,
        Table.names_put_of_not_mem _ _ _ (mt (hR.mem_iff alike.names).2 hs)]
      exact hR.concat s alike.names
  · rw [child?_of_get? hleft, Tracker.child?, Table.get?_put] at hc
    rw [child?_of_get? hright, Tracker.child?, Table.get?_put] at hd
    by_cases hs : s' = s
    · rw [if_pos hs] at hc hd
      obtain rfl := Option.some.inj hc
      obtain rfl := Option.some.inj hd
      exact hnew
    · rw [if_neg hs] at hc hd
      have hc : t.child? i s' = some c := (child?_of_get? left s').trans hc
      have hd : u.child? j s' = some d := (child?_of_get? right s').trans hd
      exact (inner hc hd).move (htm s' hs c hc) (hum s' hs d hd)

end Resembles

end TrackerTree

end Intake
