import Intake.Proofs.Run.Applies
import Intake.Proofs.Run.Settled
import Intake.Proofs.Value
import Intake.Proofs.Tracker.Below
/-!
# What a tree tells

When an entity has processed a tracker, the tree tells what became of it and of every tracker
below it, each with the entity of its address:

    Arranged own e → Bare id r k → … Told (e.process id r).tree e k id

`Told t e k x` says that the tree `t` holds at `x` what `e` makes of `k` with the children that
are there in the end.  A later child, or work at a sibling, changes nothing of it (`Told.frame`),
so the loops over items and members add one told child after the other (`Family`).
-/

namespace Intake

/-- What the tree tells a tracker of its children, which began with the values of `raw`. -/
def TrackerTree.parts (t : TrackerTree) (x : TrackerId) (raw : String → Option Value) (s : String) :
    Part :=
  { raw := raw s
    failing := (t.child? x s).any t.hasIssuesBelow
    value := (t.child? x s).bind t.value? }

/-- The tree holds at `x` what the entity makes of `k`, and so for the children. -/
inductive Told (t : TrackerTree) : Entity → Tracker → TrackerId → Prop
  | mk {e : Entity} {k l : Tracker} {x : TrackerId} {raw : String → Option Value}
      (get : t.get? x = some l) (made : e.Makes (t.parts x raw) k l)
      (nodup : (Table.names l.children).Nodup)
      (known : ∀ {s c}, t.child? x s = some c → ∃ member, e.child? s = some member)
      (inner : ∀ {s c member}, t.child? x s = some c → e.child? s = some member →
        Told t member { value := raw s, parent := some x, segment := some s } c) : Told t e k x

/-- A tracker that no entity has begun on. -/
structure Tracker.Untouched (k : Tracker) : Prop where
  entity : k.entity = none
  children : k.children = []
  issues : k.issues = []

namespace Entity

/-- All entities inside of an entity, itself included, have a property. -/
def Throughout (P : Entity → Prop) (e : Entity) : Prop :=
  ∀ segments inner, e.at? segments = some inner → P inner

theorem Throughout.child {P : Entity → Prop} {e member : Entity} (h : e.Throughout P) {s : String}
    (hm : e.child? s = some member) : member.Throughout P :=
  fun segments inner hinner => h (s :: segments) inner (by rw [at?, hm]; exact hinner)

theorem Throughout.at? {P : Entity → Prop} {e inner : Entity} (h : e.Throughout P)
    {segments : List String} (hinner : e.at? segments = some inner) : inner.Throughout P := by
  induction segments generalizing e with
  | nil => exact Option.some.inj hinner ▸ h
  | cons s rest ih =>
    rw [Entity.at?, Option.bind_eq_some_iff] at hinner
    obtain ⟨member, hm, hinner⟩ := hinner
    exact ih (h.child hm) hinner

/-- The children begin with the parts of the value that the tracker had. -/
def HandsOn (e : Entity) : Prop :=
  ∀ parts k l, k.Untouched → e.Makes parts k l → ∀ s ∈ Table.names l.children,
    (parts s).raw = k.value.bind (·.under? s)

end Entity

namespace TrackerTree

variable {t t' : TrackerTree} {id x : TrackerId}

/-- The children of a tracker tell the same if each is the same. -/
theorem parts_eq {raw : String → Option Value} {s : String}
    (hchild : t'.child? x s = t.child? x s)
    (hsame : ∀ c, t.child? x s = some c →
      t'.hasIssuesBelow c = t.hasIssuesBelow c ∧ t'.value? c = t.value? c) :
    t'.parts x raw s = t.parts x raw s := by
  rw [parts, parts, hchild]
  cases hc : t.child? x s with
  | none => rfl
  | some c =>
    obtain ⟨hissues, hvalue⟩ := hsame c hc
    simp only [Option.any_some, Option.bind_some, hissues, hvalue]

theorem Grows.value?_eq (h : Grows id t t') (hx : x < t.size) (hne : x ≠ id) :
    t'.value? x = t.value? x := by
  rw [value?, value?, h.frame hx hne]

end TrackerTree

namespace Told

open TrackerTree

variable {t t' : TrackerTree} {e : Entity} {k : Tracker} {id x : TrackerId}

theorem lt_size (h : Told t e k x) : x < t.size := by
  cases h with
  | mk get => exact lt_size_of_get? get

/-- What a tracker holds, its entity has made of what it began with. -/
theorem makes (h : Told t e k x) {l : Tracker} (get : t.get? x = some l) :
    ∃ raw, e.Makes (t.parts x raw) k l := by
  cases h with
  | @mk e k m x raw get' made =>
    obtain rfl := Option.some.inj (get'.symm.trans get)
    exact ⟨raw, made⟩

theorem owner (h : Told t e k x) (hk : k.Untouched) {l : Tracker} (get : t.get? x = some l) :
    l.entity = some e.id := by
  obtain ⟨raw, made⟩ := h.makes get
  refine made.entity hk.entity ?_
  rw [Tracker.hasIssues, hk.issues]
  rfl

/-- Work elsewhere changes nothing. -/
theorem frame (h : Told t e k x) (hl : t.Linked) (hg : Grows id t t') (hid : ¬ t.Below x id) :
    Told t' e k x ∧ t'.hasIssuesBelow x = t.hasIssuesBelow x := by
  induction h with
  | @mk e k l x raw get made nodup known inner ih =>
    have hne : ∀ {z}, t.Below x z → z ≠ id := fun hz he => hid (he ▸ hz)
    have hx := hne (.refl t x)
    have get' : t'.get? x = some l := (hg.frame (lt_size_of_get? get) hx).trans get
    have hchild : ∀ s, t'.child? x s = t.child? x s :=
      fun s => (child?_of_get? get' s).trans (child?_of_get? get s).symm
    -- the children are told and stay as they are
    have hinner : ∀ {s c}, t.child? x s = some c → ∀ {member}, e.child? s = some member →
        Told t' member { value := raw s, parent := some x, segment := some s } c ∧
          t'.hasIssuesBelow c = t.hasIssuesBelow c :=
      fun hc _ hm => ih hc hm fun h => hid (h.head hc)
    have hsame : ∀ {s c}, t.child? x s = some c → t'.hasIssuesBelow c = t.hasIssuesBelow c := by
      intro s c hc
      obtain ⟨member, hm⟩ := known hc
      exact (hinner hc hm).2
    have hparts : t'.parts x raw = t.parts x raw := funext fun s => parts_eq (hchild s)
      fun c hc => ⟨hsame hc, hg.value?_eq (hl.child_lt_size hc) (hne (.child hc))⟩
    refine ⟨.mk get' (hparts ▸ made) nodup (fun hc => ?_) (fun hc hm => ?_), ?_⟩
    · exact known ((hchild _).symm.trans hc)
    · exact (hinner ((hchild _).symm.trans hc) hm).1
    · rw [Bool.eq_iff_iff, hasIssuesBelow_iff hl get nodup,
        hasIssuesBelow_iff hg.linked get' nodup]
      refine or_congr_right (exists₂_congr fun s c => ?_)
      rw [hchild s]
      exact and_congr_right fun hc => by rw [hsame hc]

/-- Each tracker is told with the entity of its address.  If every entity on the way hands on the
parts of its value, the tracker began with the part of that address. -/
theorem follow {segments : List String} {y : TrackerId} (h : Told t e k x) (hk : k.Untouched)
    (hy : t.follow x segments = some y) :
    ∃ inner k', e.at? segments = some inner ∧ k'.Untouched ∧ Told t inner k' y ∧
      (e.Throughout Entity.HandsOn → k'.value = k.value.bind (·.at? segments)) := by
  induction segments generalizing x e k with
  | nil =>
    obtain rfl : x = y := by simpa [TrackerTree.follow] using hy
    refine ⟨e, k, rfl, hk, h, fun _ => ?_⟩
    cases hv : k.value <;> simp [Value.at?]
  | cons s rest ih =>
    rw [follow_cons, Option.bind_eq_some_iff] at hy
    obtain ⟨c, hc, hy⟩ := hy
    cases h with
    | @mk e k l x raw get made nodup known inner =>
      obtain ⟨member, hm⟩ := known hc
      obtain ⟨last, k', hlast, hk', htold, hvalue⟩ := ih (inner hc hm) ⟨rfl, rfl, rfl⟩ hy
      refine ⟨last, k', by rw [Entity.at?, hm]; exact hlast, hk', htold, fun hall => ?_⟩
      have hs : s ∈ Table.names l.children := by
        rw [child?_of_get? get] at hc
        exact Table.mem_names_of_get? hc
      have hraw : raw s = k.value.bind (·.under? s) := hall [] e rfl _ k l hk made s hs
      rw [hvalue (hall.child hm)]
      show (raw s).bind _ = _
      rw [hraw, Option.bind_assoc]
      rfl

end Told

/-! ## A tracker and its children -/

/-- Since `t₀`, work at `id` has made the tracker `k` of it and given it children; those in `done`
have been processed. -/
structure Family (e : Entity) (id : TrackerId) (raw : String → Option Value)
    (done : String → Prop) (t₀ t : TrackerTree) (k : Tracker) : Prop where
  grows : TrackerTree.Grows id t₀ t
  get : t.get? id = some k
  nodup : (Table.names k.children).Nodup
  known : ∀ {s c}, t.child? id s = some c → ∃ member, e.child? s = some member
  told : ∀ {s c member}, done s → t.child? id s = some c → e.child? s = some member →
    Told t member { value := raw s, parent := some id, segment := some s } c
  below : ∀ {y}, t₀.size ≤ y → y < t.size → t.Below id y

namespace Family

open TrackerTree

variable {e : Entity} {id : TrackerId} {raw : String → Option Value} {done done' : String → Prop}
  {t₀ t₁ t t' : TrackerTree} {k l : Tracker}

/-- A tracker without children. -/
theorem bare (hl : t.Linked) (get : t.get? id = some k) (hk : k.children = []) :
    Family e id raw done t t k := by
  have hnone : ∀ s c, t.child? id s ≠ some c := by
    intro s c hc
    rw [child?_of_get? get, Tracker.child?, hk] at hc
    cases hc
  exact ⟨.refl hl id, get, by simp [hk, Table.names], fun hc => absurd hc (hnone _ _),
    fun _ hc => absurd hc (hnone _ _), fun hle hlt => absurd hlt (Nat.not_lt.2 hle)⟩

theorem mono (h : Family e id raw done t₀ t k)
    (hdone : ∀ {s c}, t.child? id s = some c → done' s → done s) :
    Family e id raw done' t₀ t k :=
  ⟨h.grows, h.get, h.nodup, h.known, fun hs hc => h.told (hdone hc hs) hc, h.below⟩

/-- What was done at the tracker before there were children belongs to the work. -/
theorem since (h : Family e id raw done t₁ t k) (hg : Grows id t₀ t₁)
    (hsize : t₁.size = t₀.size) : Family e id raw done t₀ t k :=
  ⟨hg.trans h.grows (.inl rfl), h.get, h.nodup, h.known, h.told,
    fun hle => h.below (hsize.le.trans hle)⟩

/-- The tracker tells what the entity makes of it. -/
theorem all (h : Family e id raw (fun _ => True) t₀ t l) (made : e.Makes (t.parts id raw) k l) :
    Told t e k id :=
  .mk h.get made h.nodup h.known (h.told trivial)

/-- The tracker itself changes. -/
theorem put (h : Family e id raw done t₀ t k) (hkl : Tracker.SamePlace k l) :
    Family e id raw done t₀ (t.update id fun _ => l) l := by
  have hl := h.grows.linked
  have hg : Grows id t (t.update id fun _ => l) := .put hl h.get hkl
  have get : (t.update id fun _ => l).get? id = some l := by
    rw [get?_update_self, h.get, Option.map_some]
  have hchild : ∀ z s, (t.update id fun _ => l).child? z s = t.child? z s := by
    intro z s
    by_cases hz : z = id
    · rw [hz, child?_of_get? get, child?_of_get? h.get, Tracker.child?, hkl.children]
      rfl
    · rw [child?, child?, get?_update_of_ne hz]
  refine ⟨h.grows.trans hg (.inl rfl), get, hkl.children ▸ h.nodup, fun hc => ?_,
    fun hs hc hm => ?_, fun hle hlt => ?_⟩
  · exact h.known ((hchild _ _).symm.trans hc)
  · rw [hchild] at hc
    exact ((h.told hs hc hm).frame hl hg (hl.not_below_parent hc)).1
  · rw [size_update] at hlt
    exact (h.below hle hlt).mono fun z s w hw => (hchild z s).trans hw

/-- The tracker itself changes, and its children tell the same. -/
theorem parts_put (h : Family e id raw (fun _ => True) t₀ t k) (hkl : Tracker.SamePlace k l) :
    (t.update id fun _ => l).parts id raw = t.parts id raw := by
  have hl := h.grows.linked
  have hg : Grows id t (t.update id fun _ => l) := .put hl h.get hkl
  have get : (t.update id fun _ => l).get? id = some l := by
    rw [get?_update_self, h.get, Option.map_some]
  refine funext fun s => parts_eq ?_ fun c hc => ⟨?_, ?_⟩
  · rw [child?_of_get? get, child?_of_get? h.get, Tracker.child?, hkl.children]
    rfl
  · obtain ⟨member, hm⟩ := h.known hc
    exact ((h.told trivial hc hm).frame hl hg (hl.not_below_parent hc)).2
  · exact hg.value?_eq (hl.child_lt_size hc) (Nat.ne_of_gt (hl.child_lt hc))

/-- A new child is attached. -/
theorem attach (h : Family e id raw (fun _ => True) t₀ t k) {s : String} {member : Entity}
    (hm : e.child? s = some member) (hs : s ∉ Table.names k.children) (v : Option Value) :
    Family e id raw (· ≠ s) t₀ (t.attach id s v).2
      { k with children := Table.put s t.size k.children } ∧
    ∀ s', s' ≠ s → (t.attach id s v).2.parts id raw s' = t.parts id raw s' := by
  have hl := h.grows.linked
  have hid : id < t.size := lt_size_of_get? h.get
  have hg : Grows id t (t.attach id s v).2 := .attach hl hid s v
  have hchild : ∀ s', s' ≠ s → (t.attach id s v).2.child? id s' = t.child? id s' :=
    fun s' hne => (child?_attach hid s v s').trans (if_neg hne)
  have hnew : (t.attach id s v).2.child? id s = some t.size :=
    (child?_attach hid s v s).trans (if_pos rfl)
  have hframe : ∀ {s' c member}, t.child? id s' = some c → e.child? s' = some member →
      Told (t.attach id s v).2 member { value := raw s', parent := some id, segment := some s' } c ∧
        (t.attach id s v).2.hasIssuesBelow c = t.hasIssuesBelow c :=
    fun hc hm => (h.told trivial hc hm).frame hl hg (hl.not_below_parent hc)
  -- the name is new, so no child is lost
  have hmono : ∀ z s' w, t.child? z s' = some w → (t.attach id s v).2.child? z s' = some w := by
    intro z s' w hw
    obtain ⟨k', hk', hw'⟩ := child?_eq_some hw
    by_cases hz : z = id
    · subst hz
      obtain rfl := Option.some.inj (h.get.symm.trans hk')
      rw [hchild s' fun he => hs (he ▸ Table.mem_names_of_get? hw')]
      exact hw
    · rw [hg.child?_eq (lt_size_of_get? hk') hz]
      exact hw
  refine ⟨⟨h.grows.trans hg (.inl rfl), ?_, ?_, fun {s' c} hc => ?_, fun {s' c m} hne hc hm' => ?_,
    fun {y} hle hlt => ?_⟩, fun s' hne => parts_eq (hchild s' hne) fun c hc => ⟨?_, ?_⟩⟩
  · rw [get?_attach_parent hid, h.get, Option.map_some]
  · rw [Table.names_put_of_not_mem _ _ _ hs, ← List.concat_eq_append]
    exact h.nodup.concat hs
  · by_cases hne : s' = s
    · exact ⟨member, hne ▸ hm⟩
    · exact h.known ((hchild s' hne).symm.trans hc)
  · exact (hframe ((hchild s' hne).symm.trans hc) hm').1
  · rw [size_attach] at hlt
    rcases Nat.lt_or_eq_of_le (Nat.le_of_lt_succ hlt) with hlt | rfl
    · exact (h.below hle hlt).mono hmono
    · exact .child hnew
  · obtain ⟨m, hm'⟩ := h.known hc
    exact (hframe hc hm').2
  · exact hg.value?_eq (hl.child_lt_size hc) (Nat.ne_of_gt (hl.child_lt hc))

end Family

end Intake
