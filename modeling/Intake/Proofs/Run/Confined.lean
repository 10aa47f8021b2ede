import Mathlib
import Intake.Proofs.Run.Growth
/-!
# Work that stays inside

An entity that processes a tracker of any tree, linked well or not, leaves every other tracker that
was there as it is.  The tracker itself stays in its place, keeps its first owner and the issues it
had, and every new tracker is below it:

    m.compileChain c own n = .ok (e, n') → id < r.tree.size →
      Confined id r.tree (e.process id r).tree

`Confined` composes along nested work, so the induction is that of `process_advances`, with less to
ask of the tree and more to show of the tracker.
-/

namespace Intake

namespace Tracker

/-- The tracker has stayed in its place, with its first owner and with the issues that it had. -/
structure Extends (k l : Tracker) : Prop where
  parent : l.parent = k.parent
  segment : l.segment = k.segment
  owner : k.entity.isSome = true → l.entity = k.entity
  issues : k.issues <+: l.issues

variable {k l m : Tracker}

theorem Extends.refl (k : Tracker) : Extends k k :=
  ⟨rfl, rfl, fun _ => rfl, List.prefix_refl _⟩

theorem Extends.trans (h : Extends k l) (h' : Extends l m) : Extends k m where
  parent := h'.parent.trans h.parent
  segment := h'.segment.trans h.segment
  owner hk := (h'.owner (h.owner hk ▸ hk)).trans (h.owner hk)
  issues := h.issues.trans h'.issues

theorem OnContent.extends {f : Tracker → Tracker} (hf : OnContent f) (k : Tracker) :
    Extends k (f k) := by
  obtain ⟨hparent, hsegment, -⟩ := hf.links k
  obtain ⟨new, hnew⟩ := hf.issues
  exact ⟨hparent, hsegment, hf.owner, hnew k ▸ List.prefix_append _ _⟩

end Tracker

namespace TrackerTree

variable {id id' : TrackerId} {t t' t'' : TrackerTree}

/-- What work at the tracker `id` may do to any tree. -/
structure Confined (id : TrackerId) (t t' : TrackerTree) : Prop where
  size : t.size ≤ t'.size
  frame : ∀ {x}, x < t.size → x ≠ id → t'.get? x = t.get? x
  here : ∀ {k}, t.get? id = some k → ∃ k', t'.get? id = some k' ∧ Tracker.Extends k k'
  inside : ∀ {x}, t.size ≤ x → x < t'.size →
    ∃ k p, t'.get? x = some k ∧ k.parent = some p ∧ p < x ∧ (p = id ∨ t.size ≤ p)

namespace Confined

theorem refl (id : TrackerId) (t : TrackerTree) : Confined id t t :=
  ⟨Nat.le_refl _, fun _ _ => rfl, fun hk => ⟨_, hk, .refl _⟩,
    fun hle hlt => absurd hlt (Nat.not_lt.2 hle)⟩

/-- A tracker that was there has stayed in its place. -/
theorem old (h : Confined id t t') {x : TrackerId} {k : Tracker} (hk : t.get? x = some k) :
    ∃ k', t'.get? x = some k' ∧ Tracker.Extends k k' := by
  by_cases hx : x = id
  · subst hx
    exact h.here hk
  · exact ⟨k, (h.frame (lt_size_of_get? hk) hx).trans hk, .refl k⟩

/-- Work at a tracker goes on at that tracker or at a new one. -/
theorem trans (h : Confined id t t') (h' : Confined id' t' t'') (hid : id' = id ∨ t.size ≤ id') :
    Confined id t t'' := by
  refine ⟨Nat.le_trans h.size h'.size, fun {x} hx hne => ?_, fun {k} hk => ?_,
    fun {x} hle hlt => ?_⟩
  · have hne' : x ≠ id' := by
      rcases hid with rfl | hid
      · exact hne
      · exact Nat.ne_of_lt (Nat.lt_of_lt_of_le hx hid)
    rw [h'.frame (Nat.lt_of_lt_of_le hx h.size) hne', h.frame hx hne]
  · obtain ⟨k', hk', hkk'⟩ := h.here hk
    obtain ⟨k'', hk'', hkk''⟩ := h'.old hk'
    exact ⟨k'', hk'', hkk'.trans hkk''⟩
  · rcases Nat.lt_or_ge x t'.size with hx | hx
    · obtain ⟨k, p, hk, hp, hlt, hinside⟩ := h.inside hle hx
      obtain ⟨k', hk', hkk'⟩ := h'.old hk
      exact ⟨k', p, hk', hkk'.parent.trans hp, hlt, hinside⟩
    · obtain ⟨k, p, hk, hp, hlt, hinside⟩ := h'.inside hx hlt
      refine ⟨k, p, hk, hp, hlt, ?_⟩
      rcases hinside with rfl | hinside
      · exact hid
      · exact .inr (Nat.le_trans h.size hinside)

theorem update (id : TrackerId) (t : TrackerTree) {f : Tracker → Tracker}
    (hf : Tracker.OnContent f) : Confined id t (t.update id f) := by
  refine ⟨(size_update id f).ge, fun _ hne => get?_update_of_ne hne f, fun {k} hk => ?_,
    fun hle hlt => ?_⟩
  · exact ⟨f k, by rw [get?_update_self, hk, Option.map_some], hf.extends k⟩
  · rw [size_update] at hlt
    exact absurd hlt (Nat.not_lt.2 hle)

theorem attach (hid : id < t.size) (segment : String) (value : Option Value) :
    Confined id t (t.attach id segment value).2 := by
  refine ⟨by simp, fun {x} hx hne => ?_, fun {k} hk => ?_, fun {x} hle hlt => ?_⟩
  · exact get?_attach_of_ne hne (Nat.ne_of_lt hx) segment value
  · refine ⟨{ k with children := Table.put segment t.size k.children }, ?_,
      ⟨rfl, rfl, fun _ => rfl, List.prefix_refl _⟩⟩
    rw [get?_attach_parent hid, hk, Option.map_some]
  · rw [size_attach] at hlt
    obtain rfl : x = t.size := Nat.le_antisymm (Nat.le_of_lt_succ hlt) hle
    exact ⟨_, id, get?_attach_size hid segment value, rfl, hid, .inl rfl⟩

/-- Every new tracker is below `id`. -/
theorem enclosing (h : Confined id t t') (hid : id < t.size) {x : TrackerId} (hle : t.size ≤ x)
    (hlt : x < t'.size) : id ∈ t'.enclosing x := by
  induction x using Nat.strongRecOn with
  | _ x ih =>
    obtain ⟨k, p, hk, hp, hpx, hinside⟩ := h.inside hle hlt
    obtain ⟨parent, hparent⟩ := exists_get? (Nat.lt_trans hpx hlt)
    -- the trackers around `x` are its parent and those around that
    have hx : t'.enclosing x = t'.outward p := by
      rw [TrackerTree.enclosing, hk]
      simp [hp]
    rw [hx, outward, hparent]
    rcases hinside with rfl | hnew
    · exact List.mem_cons_self
    · refine List.mem_cons_of_mem _ ?_
      obtain ⟨k', q, hk', hq, hqp, -⟩ := h.inside hnew (Nat.lt_trans hpx hlt)
      obtain rfl := Option.some.inj (hparent.symm.trans hk')
      have hmem := ih p hpx hnew (Nat.lt_trans hpx hlt)
      rw [TrackerTree.enclosing, hparent] at hmem
      simpa [hq, hqp] using hmem

end Confined

end TrackerTree

/-! ## Lists and objects -/

namespace Run

open TrackerTree

variable {id : TrackerId} {r₀ : Run}

/-- What a local stage does apart from its core. -/
theorem Confined.keeps (paths : List Path) (id : TrackerId) (r₀ : Run) :
    Keeps paths id fun (r : Run) => Confined id r₀.tree r.tree where
  touch hf h := h.trans (.update id _ hf) (.inl rfl)
  note _ _ h := h
  tally htree _ h := htree ▸ h
  lookUp _ h := h

/-- The tracker `id` has been given a new child for every name. -/
structure Provided (id : TrackerId) (names : List String) (t t' : TrackerTree) : Prop where
  confined : Confined id t t'
  child : ∀ name ∈ names, ∃ c, t'.child? id name = some c ∧ t.size ≤ c ∧ c < t'.size
  other : ∀ name, name ∉ names → t'.child? id name = t.child? id name

theorem provided_attachMembers {id : TrackerId} (input : List (String × Value)) :
    ∀ (names : List String) {t : TrackerTree}, id < t.size →
      Provided id names t (attachMembers id names input t)
  | [], t, _ => ⟨.refl id t, fun _ hname => absurd hname List.not_mem_nil, fun _ _ => rfl⟩
  | name :: rest, t, hid => by
    have hattach := Confined.attach hid name (Value.lookup? name input)
    have hchild := child?_attach hid name (Value.lookup? name input)
    have hrest : Provided id rest _ (attachMembers id rest input _) :=
      provided_attachMembers input rest (Nat.lt_of_lt_of_le hid hattach.size)
    refine ⟨hattach.trans hrest.confined (.inl rfl), fun s hs => ?_, fun s hs => ?_⟩
    · by_cases hsr : s ∈ rest
      · obtain ⟨c, hc, hle, hlt⟩ := hrest.child s hsr
        exact ⟨c, hc, Nat.le_trans hattach.size hle, hlt⟩
      · obtain rfl : s = name := (List.mem_cons.1 hs).resolve_right hsr
        have hlt : t.size < (t.attach id s (Value.lookup? s input)).2.size := by simp
        exact ⟨t.size, (hrest.other s hsr).trans (by rw [hchild, if_pos rfl]), Nat.le_refl _,
          Nat.lt_of_lt_of_le hlt hrest.confined.size⟩
    · obtain ⟨hne, hsr⟩ := not_or.1 (mt List.mem_cons.2 hs)
      exact (hrest.other s hsr).trans (by rw [hchild, if_neg hne])

/-- The members of an object are processed at the children that have been attached for them, and
meanwhile the tracker of the object stays as it is. -/
theorem confined_runSchedule {own : Option String} {members : List (String × Entity)}
    {schedule : Schedule String} {escaping : List Path}
    (ha : schedule.Arranges own (members.map fun m => (m.1, m.2.references)) escaping)
    (ih : ∀ m ∈ members, ∀ (c : TrackerId) (r : Run), c < r.tree.size →
      Confined c r.tree (m.2.process c r).tree) {r₁ : Run} (hid : id < r₀.tree.size)
    (h : Provided id (members.map (·.1)) r₀.tree r₁.tree) :
    let r := runSchedule schedule (Entity.memberStages members) id r₁
    Confined id r₀.tree r.tree ∧ r.tree.get? id = r₁.tree.get? id := by
  obtain ⟨keys, hserves, hrun⟩ := runSchedule_eq ha
  rw [hrun]
  refine (foldl_done (Q := fun _ (r : Run) => (Confined id r₀.tree r.tree ∧
    r.tree.get? id = r₁.tree.get? id) ∧ r₁.tree.size ≤ r.tree.size)
    (fun done name rest hkeys r hr => ?_)
    ⟨⟨h.confined, rfl⟩, Nat.le_refl _⟩).1
  obtain ⟨⟨hconfined, hhere⟩, hsize⟩ := hr
  obtain ⟨e, he, hmem⟩ := exists_entity (hserves.mem_next hkeys)
  obtain ⟨c, hc, hle, hlt⟩ := h.child name (hserves.mem_next hkeys)
  have hc' : r.tree.child? id name = some c := by
    rw [child?, hhere]
    exact hc
  have hmember := ih _ hmem c r (Nat.lt_of_lt_of_le hlt hsize)
  rw [runMember_eq he hc']
  refine ⟨⟨hconfined.trans hmember (.inr hle), ?_⟩, Nat.le_trans hsize hmember.size⟩
  rw [hmember.frame (Nat.lt_of_lt_of_le hid hconfined.size)
    (Nat.ne_of_lt (Nat.lt_of_lt_of_le hid hle)), hhere]

/-- The inspection of an object. -/
theorem confined_inspectObject {own : Option String} {members : List (String × Entity)}
    {schedule : Schedule String} {escaping : List Path}
    (ha : schedule.Arranges own (members.map fun m => (m.1, m.2.references)) escaping)
    (ih : ∀ m ∈ members, ∀ (c : TrackerId) (r : Run), c < r.tree.size →
      Confined c r.tree (m.2.process c r).tree) (policy : UnknownKeys) {r : Run}
    (hid : id < r.tree.size) :
    Confined id r.tree
      (inspectObject (Entity.memberStages members) schedule policy id r).tree := by
  have touch := fun f (r₁ : Run) (hf : Tracker.OnContent f) (h : Confined id r.tree r₁.tree) =>
    (Confined.keeps [] id r).touch hf h
  by_cases hobject : ∃ input, r.value? id = some (.object input)
  · obtain ⟨input, hv⟩ := hobject
    rw [inspectObject_of_object hv]
    have hempty : Confined id r.tree (r.setValue id none).tree :=
      touch _ r (Tracker.onContent_setValue none) (.refl id _)
    have hlt := Nat.lt_of_lt_of_le hid hempty.size
    have hrun : Confined id (r.setValue id none).tree (runSchedule schedule
        (Entity.memberStages members) id ((r.setValue id none).mapTree
          (attachMembers id (members.map (·.1)) input))).tree :=
      (confined_runSchedule ha ih hlt (provided_attachMembers input _ hlt)).1
    exact andThen_keeps (P := fun (r₁ : Run) => Confined id r.tree r₁.tree)
      (hempty.trans hrun (.inl rfl)) fun r₁ => assemble_keeps touch policy _ _
  · rw [inspectObject_refuses hobject]
    exact touch _ r (Tracker.onContent_record _) (.refl id _)

/-- The inspection of a list. -/
theorem confined_inspectList {items : Entity}
    (ih : ∀ (c : TrackerId) (r : Run), c < r.tree.size → Confined c r.tree (items.process c r).tree)
    {r : Run} (hid : id < r.tree.size) :
    Confined id r.tree (inspectList (some items.process) id r).tree := by
  refine inspectList_keeps (P := fun (r₁ : Run) => Confined id r.tree r₁.tree)
    (fun f r₁ hf => (Confined.keeps [] id r).touch hf) (fun values _ i v r₁ _ hr₁ => ?_)
    (.refl id _)
  have hattach := Confined.attach (Nat.lt_of_lt_of_le hid hr₁.size) (toString i) (some v)
  have hlt : r₁.tree.size < (r₁.tree.attach id (toString i) (some v)).2.size := by simp
  exact (hr₁.trans hattach (.inl rfl)).trans (ih _ { r₁ with tree := _ } hlt) (.inr hr₁.size)

end Run

/-! ## The main result -/

namespace Entity

open Run TrackerTree

theorem process_confined {own : Option String} {e : Entity} (h : Arranged own e) {id : TrackerId}
    {r : Run} (hid : id < r.tree.size) : Confined id r.tree (e.process id r).tree := by
  have hstart : ∀ {n : Nat} {id : TrackerId} {r : Run}, Confined id r.tree (start n id r).tree :=
    fun {n id r} => .update id _ (Tracker.onContent_claim n)
  induction h generalizing id r with
  | single hr hb =>
    obtain ⟨G, hG, he⟩ := process_local hr
    rw [he]
    exact hG.keeps (Confined.keeps _ id r)
      (fun F hF r' hr' => keeps_of_single hb hF (Confined.keeps [] id r) hr') hstart
  | array hr hi ih =>
    obtain ⟨G, hG, he⟩ := process_local hr
    rw [he]
    refine hG.keeps (Confined.keeps _ id r) (fun F hF r' hr' => ?_) hstart
    obtain ⟨pipeline, hooks, heq, rfl⟩ := hF
    cases heq
    have hlist := confined_inspectList (fun c r => ih) (Nat.lt_of_lt_of_le hid hr'.size)
    exact hr'.trans hlist (.inl rfl)
  | @object own n source resolver pipeline members schedule policy escaping hr hs hm ih =>
    obtain ⟨G, hG, he⟩ := process_local hr
    rw [he]
    refine hG.keeps (Confined.keeps _ id r) (fun F hF r' hr' => ?_) hstart
    obtain ⟨pipeline, hooks, heq, rfl⟩ := hF
    cases heq
    have hobject := confined_inspectObject hs (fun m hmem c r => ih m hmem) policy
      (Nat.lt_of_lt_of_le hid hr'.size)
    exact hr'.trans hobject (.inl rfl)

end Entity

namespace Run

/-- Processing a tracker of any tree, in any state of a run, leaves every other tracker that was
there exactly as it was.  The tracker keeps its parent, its segment, an owner that it had, and the
issues that it had in front of new ones; no tracker is lost, and every new one is below it. -/
theorem process_stays_inside {m : Mapper} {c : Chain} {own : Option String} {n n' : Nat}
    {e : Entity} (h : m.compileChain c own n = .ok (e, n')) (r : Run) {id : TrackerId}
    {k : Tracker} (hk : r.tree.get? id = some k) :
    (∀ x, x < r.tree.size → x ≠ id → (e.process id r).tree.get? x = r.tree.get? x) ∧
    (∃ k', (e.process id r).tree.get? id = some k' ∧ k'.parent = k.parent ∧
      k'.segment = k.segment ∧ (k.entity.isSome = true → k'.entity = k.entity) ∧
      k.issues <+: k'.issues) ∧
    r.tree.size ≤ (e.process id r).tree.size ∧
    ∀ x, r.tree.size ≤ x → x < (e.process id r).tree.size →
      id ∈ (e.process id r).tree.enclosing x := by
  have hid := TrackerTree.lt_size_of_get? hk
  have hconfined := Entity.process_confined (Mapper.compileChain_arranged m c own n n' e h) hid
  obtain ⟨k', hk', hextends⟩ := hconfined.here hk
  exact ⟨fun x => hconfined.frame, ⟨k', hk', hextends.parent, hextends.segment, hextends.owner,
    hextends.issues⟩, hconfined.size, fun x => hconfined.enclosing hid⟩

/-- An object with one member. -/
def wrapping : Chain :=
  .ofKind (.object [("inner", .ofKind .any Registry.empty)]) Registry.empty

/-- What it compiles to. -/
def wrapper : Entity :=
  .mk 0 wrapping none (.behaviour ⟨none, []⟩ (.object
    [("inner", .mk 1 (.ofKind .any Registry.empty) none (.behaviour ⟨none, []⟩ .pass))]
    ⟨[("inner", some "inner")], [], some ["inner"]⟩ .strip []))

theorem compile_wrapping :
    Mapper.standard.compileChain wrapping none 0 = .ok (wrapper, 2) := by cbv

/-- A run in the middle of a tree that was there before. -/
def amidst : Run :=
  { tree := ((TrackerTree.ofValue none).attach TrackerTree.root "value"
      (some (.object [("inner", .null)]))).2 }

theorem process_stays_inside_amidst :
    Mapper.standard.compileChain wrapping none 0 = .ok (wrapper, 2) ∧
      (wrapper.process 1 amidst).tree.get? 0 = amidst.tree.get? 0 ∧
      1 ∈ (wrapper.process 1 amidst).tree.enclosing 2 := by
  have hsize : amidst.tree.size = 2 := by decide +kernel
  have hgrown : (wrapper.process 1 amidst).tree.size = 3 := by decide +kernel
  obtain ⟨k, hk⟩ := TrackerTree.exists_get? (show 1 < amidst.tree.size by omega)
  obtain ⟨hframe, -, -, hbelow⟩ := process_stays_inside compile_wrapping amidst hk
  exact ⟨compile_wrapping, hframe 0 (by omega) (by decide), hbelow 2 (by omega) (by omega)⟩

end Run

end Intake
