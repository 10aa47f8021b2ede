import Mathlib.Data.List.Basic
import Intake.Proofs.Table
import Intake.Tracker
/-!
# How a tree of trackers grows

Work at one tracker changes that tracker and adds new ones, and leaves every other tracker as it
is:

    Grows id t t' → ∀ x < t.size, x ≠ id → t'.get? x = t.get? x

A tree is `Linked` if its links rise, from a smaller number to a larger one, and if a child knows
its parent and its segment.  `Grows` keeps that, composes along nested work, and keeps the place
of every tracker: its address and the trackers that enclose it.
-/

namespace Intake

namespace Tracker

/-- Two trackers carry the same. -/
structure SameContent (k l : Tracker) : Prop where
  value : k.value = l.value
  entity : k.entity = l.entity
  issues : k.issues = l.issues

/-- A change that leaves a tracker in its place, with its children. -/
def KeepsLinks (f : Tracker → Tracker) : Prop :=
  ∀ t, (f t).parent = t.parent ∧ (f t).segment = t.segment ∧ (f t).children = t.children

/-- A change of what a tracker carries, by what it carries: its place and its children stay.  The
first owner stays too, and issues are only added, the same ones to every tracker. -/
structure OnContent (f : Tracker → Tracker) : Prop where
  links : KeepsLinks f
  content : ∀ {k l}, SameContent k l → SameContent (f k) (f l)
  value : ∀ {k l : Tracker}, k.value = l.value → (f k).value = (f l).value
  owner : ∀ {k : Tracker}, k.entity.isSome = true → (f k).entity = k.entity
  issues : ∃ new, ∀ k, (f k).issues = k.issues ++ new

theorem onContent_setValue (value : Option Value) : OnContent (·.setValue value) where
  links _ := ⟨rfl, rfl, rfl⟩
  content h := ⟨rfl, h.entity, h.issues⟩
  value _ := rfl
  owner _ := rfl
  issues := ⟨[], fun k => (List.append_nil k.issues).symm⟩

theorem onContent_record (issue : Issue) : OnContent (·.record issue) where
  links _ := ⟨rfl, rfl, rfl⟩
  content h := ⟨h.value, h.entity, congrArg (· ++ [issue]) h.issues⟩
  value h := h
  owner _ := rfl
  issues := ⟨[issue], fun _ => rfl⟩

theorem onContent_claim (entity : Nat) : OnContent (·.claim entity) where
  links _ := ⟨rfl, rfl, rfl⟩
  content h := ⟨h.value, congrArg (· <|> some entity) h.entity, h.issues⟩
  value h := h
  owner {k} h := by
    obtain ⟨n, hn⟩ := Option.isSome_iff_exists.1 h
    rw [claim, hn]
    rfl
  issues := ⟨[], fun k => (List.append_nil k.issues).symm⟩

end Tracker

namespace TrackerTree

variable {t t' t'' : TrackerTree}

/-! ## What each operation does to a look-up -/

theorem get?_eq_none_iff {id : TrackerId} : t.get? id = none ↔ t.size ≤ id :=
  Array.getElem?_eq_none_iff

theorem lt_size_of_get? {id : TrackerId} {k : Tracker} (h : t.get? id = some k) : id < t.size := by
  by_contra hn
  rw [get?_eq_none_iff.2 (Nat.le_of_not_lt hn)] at h
  cases h

theorem exists_get? {id : TrackerId} (h : id < t.size) : ∃ k, t.get? id = some k :=
  ⟨_, Array.getElem?_eq_getElem h⟩

@[simp] theorem size_update (id : TrackerId) (f : Tracker → Tracker) :
    (t.update id f).size = t.size :=
  Array.size_modify

theorem get?_update (id x : TrackerId) (f : Tracker → Tracker) :
    (t.update id f).get? x = if x = id then (t.get? x).map f else t.get? x := by
  simp only [update, get?, Array.getElem?_modify, eq_comm]

theorem get?_update_self (id : TrackerId) (f : Tracker → Tracker) :
    (t.update id f).get? id = (t.get? id).map f := by
  rw [get?_update, if_pos rfl]

theorem get?_update_of_ne {id x : TrackerId} (h : x ≠ id) (f : Tracker → Tracker) :
    (t.update id f).get? x = t.get? x := by
  rw [get?_update, if_neg h]

@[simp] theorem size_attach (parent : TrackerId) (segment : String) (value : Option Value) :
    (t.attach parent segment value).2.size = t.size + 1 := by
  simp [attach, update, size]

/-- The tracker that is attached. -/
theorem get?_attach_size {parent : TrackerId} (h : parent < t.size) (segment : String)
    (value : Option Value) :
    (t.attach parent segment value).2.get? t.size =
      some { value, parent := some parent, segment := some segment } := by
  have hne : t.size ≠ parent := Nat.ne_of_gt h
  simp only [attach]
  rw [get?_update_of_ne hne]
  simp [get?, size]

/-- The tracker that it is attached to. -/
theorem get?_attach_parent {parent : TrackerId} (h : parent < t.size) (segment : String)
    (value : Option Value) :
    (t.attach parent segment value).2.get? parent =
      (t.get? parent).map fun p => { p with children := Table.put segment t.size p.children } := by
  simp only [attach]
  rw [get?_update_self]
  congr 1
  simp only [get?, size] at h ⊢
  rw [Array.getElem?_push_lt h, Array.getElem?_eq_getElem h]

theorem get?_attach_of_ne {parent x : TrackerId} (hx : x ≠ parent) (hs : x ≠ t.size)
    (segment : String) (value : Option Value) :
    (t.attach parent segment value).2.get? x = t.get? x := by
  simp only [attach]
  rw [get?_update_of_ne hx]
  simp only [get?, size] at hs ⊢
  rw [Array.getElem?_push, if_neg hs]

/-! ## Links -/

structure Linked (t : TrackerTree) : Prop where
  up : ∀ {id p : TrackerId} {k : Tracker}, t.get? id = some k → k.parent = some p → p < id
  down : ∀ {id c : TrackerId} {k : Tracker} {s : String}, t.get? id = some k →
    k.child? s = some c → id < c ∧
      ∃ child, t.get? c = some child ∧ child.parent = some id ∧ child.segment = some s

theorem linked_ofValue (value : Option Value) : (ofValue value).Linked := by
  have hroot : ∀ {id k}, (ofValue value).get? id = some k → k = { value } := by
    intro id k hk
    have hid : id < 1 := lt_size_of_get? hk
    obtain rfl : id = 0 := Nat.lt_one_iff.1 hid
    exact (Option.some.inj hk).symm
  constructor
  · intro id p k hk hp
    rw [hroot hk] at hp
    cases hp
  · intro id c k s hk hc
    rw [hroot hk] at hc
    cases hc

/-! ## Growth -/

/-- What work at the tracker `id` may do to a tree. -/
structure Grows (id : TrackerId) (t t' : TrackerTree) : Prop where
  linked : t'.Linked
  size : t.size ≤ t'.size
  frame : ∀ {x}, x < t.size → x ≠ id → t'.get? x = t.get? x
  place : ∀ {x k}, t.get? x = some k → ∃ k', t'.get? x = some k' ∧ k'.parent = k.parent ∧
    k'.segment = k.segment ∧
    ∀ {s c}, k'.child? s = some c → k.child? s = some c ∨ t.size ≤ c

theorem Grows.refl (h : t.Linked) (id : TrackerId) : Grows id t t :=
  ⟨h, Nat.le_refl _, fun _ _ => rfl, fun hk => ⟨_, hk, rfl, rfl, .inl⟩⟩

/-- Work at a tracker goes on at that tracker or at a new one. -/
theorem Grows.trans {id id' : TrackerId} (h : Grows id t t') (h' : Grows id' t' t'')
    (hid : id' = id ∨ t.size ≤ id') : Grows id t t'' := by
  refine ⟨h'.linked, Nat.le_trans h.size h'.size, ?_, ?_⟩
  · intro x hx hne
    have hne' : x ≠ id' := by
      rcases hid with rfl | hid
      · exact hne
      · exact Nat.ne_of_lt (Nat.lt_of_lt_of_le hx hid)
    rw [h'.frame (Nat.lt_of_lt_of_le hx h.size) hne', h.frame hx hne]
  · intro x k hk
    obtain ⟨k', hk', hp, hs, hc⟩ := h.place hk
    obtain ⟨k'', hk'', hp', hs', hc'⟩ := h'.place hk'
    refine ⟨k'', hk'', hp'.trans hp, hs'.trans hs, fun hd => ?_⟩
    rcases hc' hd with hd | hd
    · exact hc hd
    · exact .inr (Nat.le_trans h.size hd)

theorem Grows.update_of_links (h : t.Linked) (id : TrackerId) {f : Tracker → Tracker}
    (hf : Tracker.KeepsLinks f) : Grows id t (t.update id f) := by
  have hget : ∀ {x k}, (t.update id f).get? x = some k → ∃ old, t.get? x = some old ∧
      k.parent = old.parent ∧ k.segment = old.segment ∧ k.children = old.children := by
    intro x k hk
    rw [get?_update] at hk
    split at hk
    · obtain ⟨old, hold, rfl⟩ := Option.map_eq_some_iff.1 hk
      exact ⟨old, hold, hf old⟩
    · exact ⟨k, hk, rfl, rfl, rfl⟩
  have hput : ∀ {x old}, t.get? x = some old → ∃ k, (t.update id f).get? x = some k ∧
      k.parent = old.parent ∧ k.segment = old.segment ∧ k.children = old.children := by
    intro x old hold
    rw [get?_update]
    split
    · exact ⟨f old, by rw [hold]; rfl, hf old⟩
    · exact ⟨old, hold, rfl, rfl, rfl⟩
  refine ⟨⟨?_, ?_⟩, by simp, fun _ hne => get?_update_of_ne hne f, ?_⟩
  · intro x p k hk hp
    obtain ⟨old, hold, hparent, -, -⟩ := hget hk
    exact h.up hold (hparent ▸ hp)
  · intro x c k s hk hc
    obtain ⟨old, hold, -, -, hchildren⟩ := hget hk
    rw [Tracker.child?, hchildren] at hc
    obtain ⟨hlt, child, hchild, hparent, hsegment⟩ := h.down hold hc
    obtain ⟨child', hchild', hp', hs', -⟩ := hput hchild
    exact ⟨hlt, child', hchild', hp'.trans hparent, hs'.trans hsegment⟩
  · intro x k hk
    obtain ⟨k', hk', hp, hs, hc⟩ := hput hk
    exact ⟨k', hk', hp, hs, fun hd => .inl (by rwa [Tracker.child?, hc] at hd)⟩

theorem Grows.update (h : t.Linked) (id : TrackerId) {f : Tracker → Tracker}
    (hf : Tracker.OnContent f) : Grows id t (t.update id f) :=
  .update_of_links h id hf.links

section Attach

variable {id x : TrackerId} {k : Tracker}

/-- A tracker that is there keeps its place, and its children but for the new one. -/
theorem place_attach (hid : id < t.size) (segment : String) (value : Option Value)
    (hk : t.get? x = some k) :
    ∃ k', (t.attach id segment value).2.get? x = some k' ∧ k'.parent = k.parent ∧
      k'.segment = k.segment ∧ ∀ {s c}, k'.child? s = some c →
        k.child? s = some c ∨ x = id ∧ s = segment ∧ c = t.size := by
  by_cases hx : x = id
  · subst hx
    have hput := get?_attach_parent hid segment value
    rw [hk, Option.map_some] at hput
    refine ⟨_, hput, rfl, rfl, fun {s c} hc => ?_⟩
    simp only [Tracker.child?, Table.get?_put] at hc
    split at hc
    · next hs => exact .inr ⟨rfl, hs, (Option.some.inj hc).symm⟩
    · exact .inl hc
  · have hs : x ≠ t.size := Nat.ne_of_lt (lt_size_of_get? hk)
    exact ⟨k, (get?_attach_of_ne hx hs segment value).trans hk, rfl, rfl, .inl⟩

/-- Every tracker is the new one or has been there before. -/
theorem attach_cases (hid : id < t.size) {segment : String} {value : Option Value}
    (hk : (t.attach id segment value).2.get? x = some k) :
    x = t.size ∧ k = { value, parent := some id, segment := some segment } ∨
    ∃ old, t.get? x = some old ∧ k.parent = old.parent ∧ k.segment = old.segment ∧
      ∀ {s c}, k.child? s = some c →
        old.child? s = some c ∨ x = id ∧ s = segment ∧ c = t.size := by
  by_cases hs : x = t.size
  · subst hs
    exact .inl ⟨rfl, Option.some.inj (hk.symm.trans (get?_attach_size hid segment value))⟩
  · have hx := lt_size_of_get? hk
    rw [size_attach] at hx
    obtain ⟨old, hold⟩ := exists_get? (Nat.lt_of_le_of_ne (Nat.le_of_lt_succ hx) hs)
    obtain ⟨k', hk', hplace⟩ := place_attach hid segment value hold
    obtain rfl := Option.some.inj (hk'.symm.trans hk)
    exact .inr ⟨old, hold, hplace⟩

theorem Linked.attach (h : t.Linked) (hid : id < t.size) (segment : String)
    (value : Option Value) : (t.attach id segment value).2.Linked := by
  constructor
  · intro x p k hk hp
    rcases attach_cases hid hk with ⟨rfl, rfl⟩ | ⟨old, hold, hparent, -⟩
    · exact Option.some.inj hp ▸ hid
    · exact h.up hold (hparent ▸ hp)
  · intro x c k s hk hc
    rcases attach_cases hid hk with ⟨rfl, rfl⟩ | ⟨old, hold, -, -, hchildren⟩
    · cases hc
    · rcases hchildren hc with hc | ⟨rfl, rfl, rfl⟩
      · obtain ⟨hlt, child, hchild, hp, hseg⟩ := h.down hold hc
        obtain ⟨child', hchild', hp', hs', -⟩ := place_attach hid segment value hchild
        exact ⟨hlt, child', hchild', hp'.trans hp, hs'.trans hseg⟩
      · exact ⟨hid, _, get?_attach_size hid s value, rfl, rfl⟩

theorem Grows.attach (h : t.Linked) (hid : id < t.size) (segment : String)
    (value : Option Value) : Grows id t (t.attach id segment value).2 := by
  refine ⟨h.attach hid segment value, by simp, ?_, ?_⟩
  · intro x hx hne
    exact get?_attach_of_ne hne (Nat.ne_of_lt hx) segment value
  · intro x k hk
    obtain ⟨k', hk', hp, hs, hc⟩ := place_attach hid segment value hk
    refine ⟨k', hk', hp, hs, fun hd => ?_⟩
    rcases hc hd with hd | ⟨-, -, rfl⟩
    · exact .inl hd
    · exact .inr (Nat.le_refl _)

end Attach

end TrackerTree

end Intake
