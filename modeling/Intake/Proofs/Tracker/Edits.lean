import Intake.Proofs.Tracker.Scope
/-!
# What edits make of a tree

A tree is made from a fresh one by edits of the trackers that it has: a child is attached, or a
tracker's value, owner or issues change.  The list of edits tells all of the tree but its values and
owners (`Edited.recorded`): where each tracker was attached, what children each has, and in what
order which issues were recorded on it.

    Edited value edits t → t.get? id = some k → Recorded edits id k

The attachments alone number the trackers, so `i + 1` is what the `i`-th of them created.
-/

namespace Intake.TrackerTree

/-- What is done to a tree. -/
inductive Edit where
  | attach (parent : TrackerId) (segment : String) (value : Option Value)
  | setValue (id : TrackerId) (value : Option Value)
  | claim (id : TrackerId) (entity : Nat)
  | record (id : TrackerId) (issue : Issue)

namespace Edit

/-- The tracker that an edit names. -/
def target : Edit → TrackerId
  | attach parent _ _ => parent
  | setValue id _ => id
  | claim id _ => id
  | record id _ => id

def apply (t : TrackerTree) : Edit → TrackerTree
  | attach parent segment value => (t.attach parent segment value).2
  | setValue id value => t.setValue id value
  | claim id entity => t.update id (·.claim entity)
  | record id issue => t.record id issue

/-- The parent and the segment of what is attached. -/
def attachment? : Edit → Option (TrackerId × String)
  | attach parent segment _ => some (parent, segment)
  | _ => none

/-- What is recorded on a tracker. -/
def issueOn? (x : TrackerId) : Edit → Option Issue
  | record id issue => if x = id then some issue else none
  | _ => none

end Edit

/-- The trees that come of a fresh one by edits of trackers that are there. -/
inductive Edited (value : Option Value) : List Edit → TrackerTree → Prop
  | fresh : Edited value [] (ofValue value)
  | edit {edits : List Edit} {t : TrackerTree} (before : Edited value edits t) (e : Edit)
      (known : e.target < t.size) : Edited value (edits ++ [e]) (e.apply t)

/-! ## What the edits tell -/

/-- The parents and the segments of the trackers but the root, in the order of their creation. -/
def attachments (edits : List Edit) : List (TrackerId × String) :=
  edits.filterMap Edit.attachment?

/-- The parent and the segment that a tracker was attached with. -/
def origin? (edits : List Edit) : TrackerId → Option (TrackerId × String)
  | 0 => none
  | i + 1 => (attachments edits)[i]?

/-- The segments attached to a tracker, with the trackers created for them. -/
def attachedTo (edits : List Edit) (p : TrackerId) : Table TrackerId :=
  ((attachments edits).zipIdx 1).filterMap fun a =>
    if a.1.1 = p then some (a.1.2, a.2) else none

/-- The issues recorded on a tracker, in order. -/
def recordedOn (edits : List Edit) (x : TrackerId) : List Issue :=
  edits.filterMap (Edit.issueOn? x)

variable {edits : List Edit} {e : Edit} {x p c : TrackerId} {s : String}

theorem attachments_concat (edits : List Edit) (e : Edit) :
    attachments (edits ++ [e]) = attachments edits ++ e.attachment?.toList := by
  unfold attachments
  rw [List.filterMap_append]
  cases h : e.attachment? <;> simp [h]

theorem recordedOn_concat (edits : List Edit) (e : Edit) (x : TrackerId) :
    recordedOn (edits ++ [e]) x = recordedOn edits x ++ (e.issueOn? x).toList := by
  unfold recordedOn
  rw [List.filterMap_append]
  cases h : e.issueOn? x <;> simp [h]

/-- The trackers before an edit keep their origin. -/
theorem origin?_concat (hx : x ≤ (attachments edits).length) (e : Edit) :
    origin? (edits ++ [e]) x = origin? edits x := by
  cases x with
  | zero => rfl
  | succ i =>
    rw [origin?, origin?, attachments_concat]
    exact List.getElem?_append_left hx

theorem origin?_concat_new {a : TrackerId × String} (he : e.attachment? = some a) :
    origin? (edits ++ [e]) ((attachments edits).length + 1) = some a := by
  rw [origin?, attachments_concat, he]
  simp

theorem attachedTo_concat (edits : List Edit) (e : Edit) (p : TrackerId) :
    attachedTo (edits ++ [e]) p = attachedTo edits p ++
      (e.attachment?.toList.filter (·.1 = p)).map
        fun a => (a.2, (attachments edits).length + 1) := by
  unfold attachedTo
  rw [attachments_concat, List.zipIdx_append, List.filterMap_append]
  cases e.attachment? with
  | none => simp
  | some a =>
    by_cases ha : a.1 = p
    · simp [ha, Nat.add_comm]
    · simp [ha]

theorem mem_attachedTo : (s, c) ∈ attachedTo edits p ↔ origin? edits c = some (p, s) := by
  unfold attachedTo
  rw [List.mem_filterMap]
  constructor
  · rintro ⟨⟨⟨q, s'⟩, c'⟩, hmem, ha⟩
    split at ha
    · next hq =>
      obtain ⟨hle, hget⟩ := List.mk_mem_zipIdx_iff_le_and_getElem?_sub.1 hmem
      obtain ⟨i, rfl⟩ : ∃ i, c' = i + 1 := ⟨c' - 1, (Nat.sub_add_cancel hle).symm⟩
      obtain ⟨rfl, rfl⟩ := Prod.mk.inj (Option.some.inj ha)
      obtain rfl : q = p := hq
      simpa [origin?] using hget
    · cases ha
  · intro h
    cases c with
    | zero => cases h
    | succ i =>
      refine ⟨((p, s), i + 1), ?_, if_pos rfl⟩
      exact List.mk_mem_zipIdx_iff_le_and_getElem?_sub.2 ⟨Nat.le_add_left 1 i, h⟩

/-- Later attachments have created greater trackers. -/
theorem attachedTo_pairwise (edits : List Edit) (p : TrackerId) :
    (attachedTo edits p).Pairwise fun a b => a.2 < b.2 := by
  have hids : (((attachments edits).zipIdx 1).map (·.2)).Pairwise (· < ·) := by
    rw [List.zipIdx_map_snd]
    exact List.pairwise_lt_range'
  refine List.Pairwise.filterMap _ (fun a b hab a' ha b' hb => ?_) (List.pairwise_map.1 hids)
  split at ha
  · split at hb
    · obtain rfl := Option.some.inj ha
      obtain rfl := Option.some.inj hb
      exact hab
    · cases hb
  · cases ha

/-- In a table whose entries fall, the entry of a name is the greatest one. -/
theorem get?_of_falling {l : Table TrackerId} (h : l.Pairwise fun a b => b.2 < a.2) :
    Table.get? l s = some c ↔ (s, c) ∈ l ∧ ∀ y, (s, y) ∈ l → y ≤ c := by
  induction l with
  | nil => simp [Table.get?_nil]
  | cons head rest ih =>
    obtain ⟨n, d⟩ := head
    obtain ⟨hhead, hrest⟩ := List.pairwise_cons.1 h
    rw [Table.get?_cons]
    by_cases hn : s = n
    · subst hn
      rw [if_pos rfl]
      constructor
      · intro hd
        obtain rfl := Option.some.inj hd
        refine ⟨List.mem_cons_self, fun y hy => ?_⟩
        rcases List.mem_cons.1 hy with heq | hy
        · exact Nat.le_of_eq (Prod.mk.inj heq).2
        · exact Nat.le_of_lt (hhead _ hy)
      · rintro ⟨hmem, hmax⟩
        rcases List.mem_cons.1 hmem with heq | hmem
        · rw [(Prod.mk.inj heq).2]
        · have hlt : c < d := hhead _ hmem
          exact absurd (hmax d List.mem_cons_self) (Nat.not_le.2 hlt)
    · have hiff : ∀ y, (s, y) ∈ (n, d) :: rest ↔ (s, y) ∈ rest := fun y => by
        simp [hn]
      rw [if_neg hn, ih hrest, hiff]
      simp only [hiff]

/-- The table of what was attached has the last tracker of each segment. -/
theorem get?_attachedTo :
    Table.get? (Table.ofList (attachedTo edits p)) s = some c ↔
      origin? edits c = some (p, s) ∧ ∀ y, origin? edits y = some (p, s) → y ≤ c := by
  have hfall : (attachedTo edits p).reverse.Pairwise fun a b => b.2 < a.2 :=
    List.pairwise_reverse.2 (attachedTo_pairwise edits p)
  rw [Table.get?_ofList, get?_of_falling hfall]
  simp only [List.mem_reverse, mem_attachedTo]

/-! ## What a tracker is by the edits -/

structure Recorded (edits : List Edit) (id : TrackerId) (k : Tracker) : Prop where
  parent : k.parent = (origin? edits id).map (·.1)
  segment : k.segment = (origin? edits id).map (·.2)
  children : k.children = Table.ofList (attachedTo edits id)
  issues : k.issues = recordedOn edits id

/-- A tracker that was there stays where it is; an attachment may add a child, and a record an
issue. -/
theorem Recorded.concat {k k' : Tracker} (h : Recorded edits x k)
    (hx : x ≤ (attachments edits).length)
    (hplace : k'.parent = k.parent ∧ k'.segment = k.segment)
    (hchildren : k'.children = Table.ofList (attachedTo (edits ++ [e]) x))
    (hissues : k'.issues = k.issues ++ (e.issueOn? x).toList) : Recorded (edits ++ [e]) x k' where
  parent := by rw [hplace.1, h.parent, origin?_concat hx]
  segment := by rw [hplace.2, h.segment, origin?_concat hx]
  children := hchildren
  issues := by rw [hissues, h.issues, recordedOn_concat]

/-- Without an attachment the children are those that were there. -/
theorem attachedTo_concat_of_none (he : e.attachment? = none) (edits : List Edit)
    (p : TrackerId) : attachedTo (edits ++ [e]) p = attachedTo edits p := by
  simp [attachedTo_concat, he]

theorem Recorded.update {t : TrackerTree} {id : TrackerId} {f : Tracker → Tracker}
    (hrecorded : ∀ {x k}, t.get? x = some k → Recorded edits x k)
    (hsize : t.size = (attachments edits).length + 1) (hf : Tracker.KeepsLinks f)
    (he : e.attachment? = none)
    (hissues : ∀ x k, (if x = id then f k else k).issues = k.issues ++ (e.issueOn? x).toList)
    {k : Tracker} (hk : (t.update id f).get? x = some k) : Recorded (edits ++ [e]) x k := by
  rw [get?_update] at hk
  obtain ⟨old, hold, hkeeps⟩ : ∃ old, t.get? x = some old ∧ k = if x = id then f old else old := by
    split at hk
    · next hx =>
      obtain ⟨old, hold, rfl⟩ := Option.map_eq_some_iff.1 hk
      exact ⟨old, hold, (if_pos hx).symm⟩
    · next hx => exact ⟨k, hk, (if_neg hx).symm⟩
  have hx : x ≤ (attachments edits).length :=
    Nat.le_of_lt_succ (Nat.lt_of_lt_of_eq (lt_size_of_get? hold) hsize)
  have hlinks : k.parent = old.parent ∧ k.segment = old.segment ∧ k.children = old.children := by
    rw [hkeeps]
    split
    · exact hf old
    · exact ⟨rfl, rfl, rfl⟩
  refine (hrecorded hold).concat hx ⟨hlinks.1, hlinks.2.1⟩ ?_ (hkeeps ▸ hissues x old)
  rw [hlinks.2.2, (hrecorded hold).children, attachedTo_concat_of_none he]

namespace Edited

variable {value : Option Value} {t : TrackerTree} {k : Tracker}

theorem size_eq (h : Edited value edits t) : t.size = (attachments edits).length + 1 := by
  induction h with
  | fresh => rfl
  | edit _ e _ ih =>
    rw [attachments_concat, List.length_append]
    cases e <;> simp [Edit.apply, Edit.attachment?, setValue, record, ih]

theorem linked (h : Edited value edits t) : t.Linked := by
  induction h with
  | fresh => exact linked_ofValue value
  | edit _ e known ih =>
    cases e with
    | attach parent segment v => exact (Grows.attach ih known segment v).linked
    | setValue id v => exact (Grows.update ih id (Tracker.onContent_setValue v)).linked
    | claim id n => exact (Grows.update ih id (Tracker.onContent_claim n)).linked
    | record id issue => exact (Grows.update ih id (Tracker.onContent_record issue)).linked

/-- Nothing was done to trackers that are still to come. -/
theorem untouched (h : Edited value edits t) (hx : t.size ≤ x) :
    attachedTo edits x = [] ∧ recordedOn edits x = [] := by
  induction h with
  | fresh => exact ⟨rfl, rfl⟩
  | @edit edits t _ e known ih =>
    have hle : t.size ≤ x := by
      cases e with
      | attach parent segment v =>
        rw [Edit.apply, size_attach] at hx
        exact Nat.le_of_succ_le hx
      | setValue id v => rwa [Edit.apply, setValue, size_update] at hx
      | claim id n => rwa [Edit.apply, size_update] at hx
      | record id issue => rwa [Edit.apply, TrackerTree.record, size_update] at hx
    have hne : x ≠ e.target := Nat.ne_of_gt (Nat.lt_of_lt_of_le known hle)
    obtain ⟨hattached, hrecorded⟩ := ih hle
    rw [attachedTo_concat, recordedOn_concat, hattached, hrecorded]
    cases e with
    | attach parent segment v =>
      have hparent : parent ≠ x := Ne.symm hne
      simp [Edit.attachment?, Edit.issueOn?, hparent]
    | setValue id v => exact ⟨rfl, rfl⟩
    | claim id n => exact ⟨rfl, rfl⟩
    | record id issue =>
      have hid : x ≠ id := hne
      simp [Edit.attachment?, Edit.issueOn?, hid]

/-- One attachment: its parent gets a child, and there is a new tracker. -/
theorem recorded_attach (h : Edited value edits t)
    (hrecorded : ∀ {x k}, t.get? x = some k → Recorded edits x k) (known : p < t.size)
    (v : Option Value) (hk : (t.attach p s v).2.get? x = some k) :
    Recorded (edits ++ [.attach p s v]) x k := by
  have hsize := h.size_eq
  have hbefore : ∀ {y l}, t.get? y = some l → y ≤ (attachments edits).length := fun hl =>
    Nat.le_of_lt_succ (Nat.lt_of_lt_of_eq (lt_size_of_get? hl) hsize)
  have hattached := attachedTo_concat edits (.attach p s v) x
  rw [← hsize] at hattached
  by_cases hnew : x = t.size
  · subst hnew
    obtain ⟨hnone, hempty⟩ := h.untouched (Nat.le_refl t.size)
    have horigin : origin? (edits ++ [.attach p s v]) t.size = some (p, s) := by
      rw [hsize]
      exact origin?_concat_new rfl
    rw [get?_attach_size known] at hk
    obtain rfl := Option.some.inj hk
    refine ⟨by rw [horigin]; rfl, by rw [horigin]; rfl, ?_, ?_⟩
    · have hp : p ≠ t.size := Nat.ne_of_lt known
      rw [hattached, hnone]
      simp [Edit.attachment?, hp, Table.ofList, Table.extend]
    · rw [recordedOn_concat, hempty]
      rfl
  · by_cases hx : x = p
    · subst hx
      obtain ⟨old, hold⟩ := exists_get? known
      rw [get?_attach_parent known, hold, Option.map_some] at hk
      obtain rfl := Option.some.inj hk
      refine (hrecorded hold).concat (hbefore hold) ⟨rfl, rfl⟩ ?_ (List.append_nil _).symm
      have hone :
          attachedTo (edits ++ [.attach x s v]) x = attachedTo edits x ++ [(s, t.size)] := by
        simpa [Edit.attachment?] using hattached
      rw [hone, Table.ofList_concat, ← (hrecorded hold).children]
    · rw [get?_attach_of_ne hx hnew] at hk
      refine (hrecorded hk).concat (hbefore hk) ⟨rfl, rfl⟩ ?_ (List.append_nil _).symm
      have hnone : attachedTo (edits ++ [.attach p s v]) x = attachedTo edits x := by
        simpa [Edit.attachment?, Ne.symm hx] using hattached
      rw [hnone, ← (hrecorded hk).children]

/-- Every tracker is what the edits tell. -/
theorem recorded (h : Edited value edits t) (hk : t.get? x = some k) : Recorded edits x k := by
  induction h generalizing x k with
  | fresh =>
    have hx : x < 1 := lt_size_of_get? hk
    obtain rfl : x = 0 := Nat.lt_one_iff.1 hx
    obtain rfl := Option.some.inj hk
    exact ⟨rfl, rfl, rfl, rfl⟩
  | edit before e known ih =>
    have hsize := before.size_eq
    cases e with
    | attach p s v => exact before.recorded_attach ih known v hk
    | setValue id v =>
      refine .update ih hsize (Tracker.onContent_setValue v).links rfl (fun y l => ?_) hk
      simp [Edit.issueOn?, Tracker.setValue, apply_ite Tracker.issues]
    | claim id n =>
      refine .update ih hsize (Tracker.onContent_claim n).links rfl (fun y l => ?_) hk
      simp [Edit.issueOn?, Tracker.claim, apply_ite Tracker.issues]
    | record id issue =>
      refine .update ih hsize (Tracker.onContent_record issue).links rfl (fun y l => ?_) hk
      by_cases hy : y = id <;> simp [Edit.issueOn?, Tracker.record, hy]

theorem nodup_children (h : Edited value edits t) (hk : t.get? x = some k) :
    (Table.names k.children).Nodup :=
  (h.recorded hk).children ▸ Table.nodup_ofList _

/-- The trackers that there are. -/
theorem exists_of_origin (h : Edited value edits t) (ho : origin? edits c = some (p, s)) :
    ∃ k, t.get? c = some k ∧ k.parent = some p ∧ k.segment = some s := by
  have hc : c < t.size := by
    rw [h.size_eq]
    cases c with
    | zero => exact Nat.succ_pos _
    | succ i => exact Nat.succ_lt_succ (List.getElem?_eq_some_iff.1 ho).1
  obtain ⟨k, hk⟩ := exists_get? hc
  have hrecorded := h.recorded hk
  exact ⟨k, hk, by rw [hrecorded.parent, ho]; rfl, by rw [hrecorded.segment, ho]; rfl⟩

theorem origin_of_pos (h : Edited value edits t) (hx : x < t.size) (hpos : x ≠ 0) :
    ∃ p s, origin? edits x = some (p, s) := by
  obtain ⟨i, rfl⟩ := Nat.exists_eq_succ_of_ne_zero hpos
  rw [h.size_eq] at hx
  exact ⟨_, _, List.getElem?_eq_getElem (Nat.succ_lt_succ_iff.1 hx)⟩

end Edited

end Intake.TrackerTree
