import Intake.Proofs.Run.Local
import Intake.Proofs.Tracker.Scope
/-!
# What an entity may change

An entity that processes a tracker changes that tracker and new ones below it.  Everything else
in the tree is as before, and every new event is about the tracker or a new one:

    Arranged own e → Advances id r (process e id r)

The two loops, over the items of a list and over the scheduled members of an object, are brought
into the form in which invariants are proved of them: `inspectList_along` and `runSchedule_along`.
-/

namespace Intake

namespace Run

/-! ## Advancing -/

/-- What work at the tracker `id` may do to a run. -/
structure Advances (id : TrackerId) (r r' : Run) : Prop where
  grows : TrackerTree.Grows id r.tree r'.tree
  trace : ∃ new, r'.trace = new ++ r.trace ∧
    ∀ event ∈ new, event.tracker = id ∨ r.tree.size ≤ event.tracker

namespace Advances

variable {id id' : TrackerId} {r r' r'' : Run}

theorem of_grows (h : TrackerTree.Grows id r.tree r'.tree) (ht : r'.trace = r.trace) :
    Advances id r r' :=
  ⟨h, [], by simp [ht], by simp⟩

theorem refl (h : r.tree.Linked) (id : TrackerId) : Advances id r r :=
  of_grows (.refl h id) rfl

/-- Work at a tracker goes on at that tracker or at a new one. -/
theorem trans (h : Advances id r r') (h' : Advances id' r' r'')
    (hid : id' = id ∨ r.tree.size ≤ id') : Advances id r r'' := by
  obtain ⟨new, hnew, habout⟩ := h.trace
  obtain ⟨new', hnew', habout'⟩ := h'.trace
  refine ⟨h.grows.trans h'.grows hid, new' ++ new, by rw [hnew', hnew, List.append_assoc], ?_⟩
  intro event hevent
  rcases List.mem_append.1 hevent with hevent | hevent
  · rcases habout' event hevent with he | he
    · exact he ▸ hid
    · exact .inr (Nat.le_trans h.grows.size he)
  · exact habout event hevent

theorem touch (h : r.tree.Linked) (id : TrackerId) {f : Tracker → Tracker}
    (hf : Tracker.OnContent f) : Advances id r (r.mapTree (·.update id f)) :=
  of_grows (.update h id hf) rfl

theorem note (h : r.tree.Linked) {event : Event} (he : event.tracker = id) :
    Advances id r (r.note event) :=
  ⟨.refl h id, [event], rfl, by simp [he]⟩

theorem lt (h : Advances id r r') {x : TrackerId} (hx : x < r.tree.size) : x < r'.tree.size :=
  Nat.lt_of_lt_of_le hx h.grows.size

/-- What the trace tells of another tracker that was there has not changed. -/
theorem filterMap_trace {β : Type} {f : Event → Option β} {x : TrackerId} (h : Advances id r r')
    (hx : x < r.tree.size) (hne : x ≠ id) (hf : ∀ event : Event, event.tracker ≠ x → f event = none) :
    r'.trace.filterMap f = r.trace.filterMap f := by
  obtain ⟨new, hnew, habout⟩ := h.trace
  have hnone : new.filterMap f = [] := by
    refine List.filterMap_eq_nil_iff.2 fun event hevent => hf event ?_
    rintro rfl
    rcases habout event hevent with he | he
    · exact hne he
    · exact Nat.not_lt.2 he hx
  rw [hnew, List.filterMap_append, hnone, List.nil_append]

/-- What a local stage does apart from its core. -/
theorem keeps (paths : List Path) (id : TrackerId) (r : Run) :
    Keeps paths id (Advances id r) where
  touch hf h := h.trans (.touch h.grows.linked id hf) (.inl rfl)
  note he _ h := h.trans (.note h.grows.linked he) (.inl rfl)
  tally htree htrace h :=
    h.trans (of_grows (by rw [htree]; exact .refl h.grows.linked id) htrace) (.inl rfl)
  lookUp _ h := h.trans (.note h.grows.linked rfl) (.inl rfl)

end Advances

/-! ## The loops -/

/-- Two folds whose invariant speaks of the elements that are done. -/
theorem foldl_both {α σ τ : Type} {f : σ → α → σ} {g : τ → α → τ} {Q : List α → σ → τ → Prop}
    {l : List α}
    (step : ∀ done a rest, l = done ++ a :: rest → ∀ s t, Q done s t →
      Q (done ++ [a]) (f s a) (g t a))
    {s : σ} {t : τ} (h : Q [] s t) : Q l (l.foldl f s) (l.foldl g t) := by
  have hrest : ∀ rest done s t, l = done ++ rest → Q done s t →
      Q l (rest.foldl f s) (rest.foldl g t) := by
    intro rest
    induction rest with
    | nil =>
      intro done s t hl hst
      rwa [hl, List.append_nil]
    | cons a rest ih =>
      intro done s t hl hst
      exact ih (done ++ [a]) (f s a) (g t a) (by simp [hl]) (step done a rest hl s t hst)
  exact hrest l [] s t rfl h

/-- A fold whose invariant speaks of the elements that are done. -/
theorem foldl_done {α σ : Type} {f : σ → α → σ} {Q : List α → σ → Prop} {l : List α}
    (step : ∀ done a rest, l = done ++ a :: rest → ∀ s, Q done s → Q (done ++ [a]) (f s a))
    {s : σ} (h : Q [] s) : Q l (l.foldl f s) :=
  foldl_both (Q := fun done s (_ : Unit) => Q done s) (g := fun t _ => t)
    (fun done a rest hl s _ hs => step done a rest hl s hs) (t := ()) h

/-- The items of a list are processed one after the other, from some index on. -/
theorem runItems_along {Inv : Nat → Run → Prop} {item : Stage} {id : TrackerId}
    {values : List Value}
    (step : ∀ (i : Nat) v r, values[i]? = some v → Inv i r →
      Inv (i + 1) (item r.tree.size { r with tree := (r.tree.attach id (toString i) (some v)).2 })) :
    ∀ (rest : List Value) (i : Nat) (r : Run), values.drop i = rest → Inv i r →
      Inv (i + rest.length) (runItems item id i rest r).2.2
  | [], _, _, _, hr => hr
  | v :: rest, i, r, hrest, hr => by
    have hv : values[i]? = some v := by rw [← List.head?_drop, hrest, List.head?_cons]
    have hdrop : values.drop (i + 1) = rest := by rw [← List.tail_drop, hrest, List.tail_cons]
    rw [List.length_cons, Nat.add_comm rest.length, ← Nat.add_assoc]
    exact runItems_along step rest (i + 1) _ hdrop (step i v r hv hr)

/-- What one item leaves behind. -/
def itemRun (items : Entity) (id : TrackerId) (n : Nat) (v : Value) (r : Run) : Run :=
  items.process r.tree.size { r with tree := (r.tree.attach id (toString n) (some v)).2 }

theorem runItems_cons (items : Entity) (id : TrackerId) (m : Nat) (v : Value)
    (rest : List Value) (r : Run) :
    runItems items.process id m (v :: rest) r =
      (((itemRun items id m v r).value? r.tree.size).getD .null ::
        (runItems items.process id (m + 1) rest (itemRun items id m v r)).1,
       if (itemRun items id m v r).tree.hasIssuesBelow r.tree.size then
         m :: (runItems items.process id (m + 1) rest (itemRun items id m v r)).2.1
       else (runItems items.process id (m + 1) rest (itemRun items id m v r)).2.1,
       (runItems items.process id (m + 1) rest (itemRun items id m v r)).2.2) :=
  rfl

/-- A list is inspected item by item. -/
theorem inspectList_along {P : Nat → Run → Prop} {item : Stage} {id : TrackerId} {r : Run}
    {values : List Value} (hv : r.value? id = some (.list values))
    (touch : ∀ n f r, Tracker.OnContent f → P n r → P n (r.mapTree (·.update id f)))
    (step : ∀ (i : Nat) v r', values[i]? = some v → P i r' →
      P (i + 1) (item r'.tree.size { r' with tree := (r'.tree.attach id (toString i) (some v)).2 }))
    (hr : P 0 r) : P values.length (inspectList (some item) id r) := by
  have hset : ∀ n v r, P n r → P n (r.setValue id v) :=
    fun n v r => touch n _ r (Tracker.onContent_setValue v)
  have hitems := runItems_along step values 0 _ rfl (hset 0 none r hr)
  rw [Nat.zero_add] at hitems
  rw [inspectList_of_list hv]
  dsimp only
  split
  · exact hset _ _ _ hitems
  · exact touch _ _ _ (Tracker.onContent_record _) (hset _ _ _ hitems)

/-- What the items of a list keep, its inspection keeps. -/
theorem inspectList_keeps {P : Run → Prop} {item : Stage} {id : TrackerId} {r : Run}
    (touch : ∀ f r, Tracker.OnContent f → P r → P (r.mapTree (·.update id f)))
    (step : ∀ values, r.value? id = some (.list values) → ∀ (i : Nat) v r', values[i]? = some v →
      P r' →
        P (item r'.tree.size { r' with tree := (r'.tree.attach id (toString i) (some v)).2 }))
    (hr : P r) : P (inspectList (some item) id r) := by
  by_cases hlist : ∃ values, r.value? id = some (.list values)
  · obtain ⟨values, hv⟩ := hlist
    exact inspectList_along (P := fun _ => P) hv (fun _ => touch) (step values hv) hr
  · rw [inspectList_refuses hlist]
    exact touch _ r (Tracker.onContent_record _) hr

/-- An order in which all members run, each after those it waits for. -/
structure Serves (schedule : Schedule String) (names keys : List String) : Prop where
  mem : ∀ name, name ∈ keys ↔ name ∈ names
  next : ∀ {done name rest}, keys = done ++ name :: rest →
    name ∉ done ∧ ∀ p, Schedule.Joins schedule.edges p name → p ∈ done

theorem Serves.mem_next {schedule : Schedule String} {names keys done rest : List String}
    {name : String} (h : Serves schedule names keys) (hkeys : keys = done ++ name :: rest) :
    name ∈ names :=
  (h.mem name).1 (by simp [hkeys])

/-- A member has one place in the order. -/
theorem Serves.done_eq {schedule : Schedule String} {names keys done rest done' rest' : List String}
    {name : String} (h : Serves schedule names keys) (hkeys : keys = done ++ name :: rest)
    (hkeys' : keys = done' ++ name :: rest') : done' = done := by
  have hrest : name ∉ rest := by
    intro hmem
    obtain ⟨mid, last, rfl⟩ := List.append_of_mem hmem
    have hagain : keys = (done ++ name :: mid) ++ name :: last := by simpa using hkeys
    exact (h.next hagain).1 (by simp)
  have heq := (List.append_cons_inj_of_notMem (h.next hkeys).1 hrest).1 (hkeys.symm.trans hkeys')
  exact heq.1.symm

theorem Serves.of_orders {schedule : Schedule String} {keys : List String}
    (hs : schedule.Sound) (h : schedule.Orders keys) :
    Serves schedule (Table.names schedule.nodes) keys := by
  refine ⟨fun name => h.perm.mem_iff, ?_⟩
  rintro done name rest rfl
  exact h.producers_mem hs

/-- The members of a compiled object run one after the other, in the order that is kept. -/
theorem runSchedule_cached {own : Option String} {members : List (String × Entity)}
    {schedule : Schedule String} {escaping : List Path} {keys : List String}
    (hs : schedule.Arranges own (members.map fun m => (m.1, m.2.references)) escaping)
    (hcached : schedule.cached = some keys) :
    Serves schedule (members.map (·.1)) keys ∧ ∀ stages id r,
      runSchedule schedule stages id r =
        keys.foldl (fun r name => runMember stages id name r) r := by
  have hserves := Serves.of_orders hs.sound (hs.sound.cached keys hcached)
  refine ⟨hs.names_members ▸ hserves, fun stages id r => ?_⟩
  have hop : ∀ name ∈ keys, schedule.operation? name = some name := by
    intro name hname
    obtain ⟨node, hnode, rfl⟩ := List.mem_map.1 ((hserves.mem name).1 hname)
    have hget : Table.get? schedule.nodes node.1 = some node.2 :=
      Table.get?_of_mem hs.sound.nodup hnode
    rw [Schedule.operation?, hget, hs.operations node hnode]
    rfl
  have horder : schedule.order = .ok (keys, schedule) := by simp [Schedule.order, hcached]
  rw [runSchedule]
  simp only [Schedule.execute, horder, bind, Except.bind, pure, Except.pure]
  refine List.foldl_ext _ _ _ fun r name hname => ?_
  rw [hop name hname]

theorem runSchedule_eq {own : Option String} {members : List (String × Entity)}
    {schedule : Schedule String} {escaping : List Path}
    (hs : schedule.Arranges own (members.map fun m => (m.1, m.2.references)) escaping) :
    ∃ keys, Serves schedule (members.map (·.1)) keys ∧ ∀ stages id r,
      runSchedule schedule stages id r =
        keys.foldl (fun r name => runMember stages id name r) r := by
  obtain ⟨keys, hcached⟩ := hs.kept
  exact ⟨keys, runSchedule_cached hs hcached⟩

theorem exists_entity {members : List (String × Entity)} {name : String}
    (h : name ∈ members.map (·.1)) :
    ∃ e, Table.get? members name = some e ∧ (name, e) ∈ members := by
  obtain ⟨e, he⟩ := Table.exists_get? h
  exact ⟨e, he, Table.mem_of_get? he⟩

theorem runMember_eq {members : List (String × Entity)} {id c : TrackerId} {name : String}
    {e : Entity} {r : Run} (he : Table.get? members name = some e)
    (hc : r.tree.child? id name = some c) :
    runMember (Entity.memberStages members) id name r = e.process c r := by
  have hstage : Table.get? (Entity.memberStages members) name = some e.process := by
    rw [memberStages_eq, Table.get?_map, he]
    rfl
  have hchild : (r.tree.get? id).bind (·.child? name) = some c := hc
  rw [runMember, hstage, hchild]

/-! ## Members on their children -/

/-- The tracker `id` has been given a new child for every name, with the value of its key. -/
structure Attached (id : TrackerId) (names : List String) (input : List (String × Value))
    (t t' : TrackerTree) : Prop where
  grows : TrackerTree.Grows id t t'
  child : ∀ name ∈ names, ∃ c, t'.child? id name = some c ∧ t.size ≤ c ∧ t'.get? c =
    some { value := Value.lookup? name input, parent := some id, segment := some name }
  other : ∀ name, name ∉ names → t'.child? id name = t.child? id name
  all : names.Nodup → ∀ x, t.size ≤ x → x < t'.size → ∃ name ∈ names, t'.child? id name = some x

theorem attached_attachMembers {id : TrackerId} {input : List (String × Value)} :
    ∀ (names : List String) {t : TrackerTree}, t.Linked → id < t.size →
      Attached id names input t (attachMembers id names input t)
  | [], t, hl, hid =>
    ⟨.refl hl id, by simp, fun _ _ => rfl, fun _ x hle hlt => absurd hlt (Nat.not_lt.2 hle)⟩
  | name :: rest, t, hl, hid => by
    have hgrows := TrackerTree.Grows.attach hl hid name (Value.lookup? name input)
    have hnew := TrackerTree.get?_attach_size hid name (Value.lookup? name input)
    have hchild := TrackerTree.child?_attach hid name (Value.lookup? name input)
    have hlt : t.size < (t.attach id name (Value.lookup? name input)).2.size := by simp
    have hrest : Attached id rest input _ (attachMembers id rest input _) :=
      attached_attachMembers rest hgrows.linked (Nat.lt_of_lt_of_le hid hgrows.size)
    refine ⟨hgrows.trans hrest.grows (.inl rfl), fun s hs => ?_, fun s hs => ?_, ?_⟩
    · by_cases hsr : s ∈ rest
      · obtain ⟨c, hc, hle, hget⟩ := hrest.child s hsr
        exact ⟨c, hc, Nat.le_trans hgrows.size hle, hget⟩
      · obtain rfl : s = name := (List.mem_cons.1 hs).resolve_right hsr
        refine ⟨t.size, ?_, Nat.le_refl _, ?_⟩
        · exact (hrest.other s hsr).trans (by rw [hchild, if_pos rfl])
        · exact (hrest.grows.frame hlt (Nat.ne_of_gt hid)).trans hnew
    · obtain ⟨hne, hsr⟩ := not_or.1 (mt List.mem_cons.2 hs)
      exact (hrest.other s hsr).trans (by rw [hchild, if_neg hne])
    · intro hnodup x hle hx
      obtain ⟨hname, hnodup⟩ := List.nodup_cons.1 hnodup
      rcases Nat.eq_or_lt_of_le hle with rfl | hlt'
      · exact ⟨name, List.mem_cons_self,
          (hrest.other name hname).trans (by rw [hchild, if_pos rfl])⟩
      · obtain ⟨s, hs, hc⟩ := hrest.all hnodup x (by rw [TrackerTree.size_attach]; exact hlt') hx
        exact ⟨s, List.mem_cons_of_mem _ hs, hc⟩

/-- An object is put together on its own tracker. -/
theorem assemble_keeps {P : Run → Prop} {id : TrackerId}
    (touch : ∀ f r, Tracker.OnContent f → P r → P (r.mapTree (·.update id f)))
    (policy : UnknownKeys) (names : List String) (unknown : List (String × Value)) {r : Run}
    (hr : P r) : P (assemble policy names unknown id r) := by
  have hnames : ∀ r, P r → ∀ key arg names, P (r.recordNames id key arg names) := fun r hr =>
    recordNames_keeps (fun issue => touch _ r (Tracker.onContent_record issue) hr) hr
  unfold assemble
  exact hnames _ (hnames _ (touch _ r (Tracker.onContent_setValue _) hr) _ _ _) _ _ _

/-- The inspection of an object attaches its members, which changes nothing but the tree, runs
them, and writes on its own tracker. -/
theorem inspectObject_grown {Inv : Run → Prop} {members : List (String × Entity)}
    {schedule : Schedule String} {policy : UnknownKeys} {id : TrackerId} {r : Run}
    (touch : ∀ f r, Tracker.OnContent f → Inv r → Inv (r.mapTree (·.update id f)))
    (linked : ∀ r, Inv r → r.tree.Linked ∧ id < r.tree.size)
    (run : ∀ input, r.value? id = some (.object input) → ∀ r' t, Inv r' →
      Attached id (members.map (·.1)) input r'.tree t →
        Inv (runSchedule schedule (Entity.memberStages members) id { r' with tree := t }))
    (hr : Inv r) : Inv (inspectObject (Entity.memberStages members) schedule policy id r) := by
  by_cases hobject : ∃ input, r.value? id = some (.object input)
  · obtain ⟨input, hv⟩ := hobject
    rw [inspectObject_of_object hv]
    have hr' : Inv (r.setValue id none) := touch _ r (Tracker.onContent_setValue none) hr
    have hrun := run input hv _ _ hr'
      (attached_attachMembers (members.map (·.1)) (linked _ hr').1 (linked _ hr').2)
    exact andThen_keeps hrun fun r hr => assemble_keeps touch policy _ _ hr
  · rw [inspectObject_refuses hobject]
    exact touch _ r (Tracker.onContent_record _) hr

theorem inspectObject_keeps {Inv : Run → Prop} {members : List (String × Entity)}
    {schedule : Schedule String} {policy : UnknownKeys} {id : TrackerId} {r : Run}
    (touch : ∀ f r, Tracker.OnContent f → Inv r → Inv (r.mapTree (·.update id f)))
    (linked : ∀ r, Inv r → r.tree.Linked ∧ id < r.tree.size)
    (run : ∀ input, r.value? id = some (.object input) → ∀ r' r₁, Inv r' →
      Attached id (members.map (·.1)) input r'.tree r₁.tree → r₁.trace = r'.trace →
        Inv (runSchedule schedule (Entity.memberStages members) id r₁))
    (hr : Inv r) : Inv (inspectObject (Entity.memberStages members) schedule policy id r) :=
  inspectObject_grown touch linked
    (fun input hv r' t hr' hattached => run input hv r' { r' with tree := t } hr' hattached rfl) hr

/-- While members run on the children that `r₁` has attached to `id`, that tracker stays as it
is, and so do the children of the members that have not run. -/
structure Ongoing (id : TrackerId) (r₀ r₁ : Run) (done : List String) (r : Run) : Prop where
  advances : Advances id r₀ r
  here : r.tree.get? id = r₁.tree.get? id
  pending : ∀ {name c}, name ∉ done → r₁.tree.child? id name = some c →
    r.tree.get? c = r₁.tree.get? c

namespace Ongoing

variable {id c : TrackerId} {r₀ r₁ r r' : Run} {done : List String} {name : String}

theorem child?_eq (h : Ongoing id r₀ r₁ done r) (s : String) :
    r.tree.child? id s = r₁.tree.child? id s := by
  unfold TrackerTree.child?
  rw [h.here]

theorem member (h : Ongoing id r₀ r₁ done r) (hl : r₁.tree.Linked)
    (hc : r₁.tree.child? id name = some c) (hold : r₀.tree.size ≤ c)
    (hr : Advances c r r') : Ongoing id r₀ r₁ (done ++ [name]) r' := by
  have hc' : r.tree.child? id name = some c := (h.child?_eq name).trans hc
  have hlt := h.advances.grows.linked.child_lt hc'
  have hid : id < r.tree.size :=
    Nat.lt_trans hlt (h.advances.grows.linked.child_lt_size hc')
  refine ⟨h.advances.trans hr (.inr hold), ?_, ?_⟩
  · exact (hr.grows.frame hid (Nat.ne_of_lt hlt)).trans h.here
  · intro other d hother hd
    have hne : d ≠ c := by
      rintro rfl
      obtain ⟨-, rfl⟩ := hl.child?_inj hd hc
      exact hother (by simp)
    have hd' : r.tree.child? id other = some d := (h.child?_eq other).trans hd
    have hlt' := h.advances.grows.linked.child_lt_size hd'
    rw [hr.grows.frame hlt' hne]
    exact h.pending (fun hmem => hother (List.mem_append_left _ hmem)) hd

end Ongoing

/-- The children that `r₁` has attached for members that have not run. -/
def Pending (id : TrackerId) (names : List String) (r₁ : Run) (done : List String)
    (x : TrackerId) : Prop :=
  ∃ name ∈ names, name ∉ done ∧ r₁.tree.child? id name = some x

/-- At first all that has been attached is pending. -/
theorem Attached.pending_iff {id x : TrackerId} {names : List String}
    {input : List (String × Value)} {t : TrackerTree} {r₁ : Run}
    (h : Attached id names input t r₁.tree) (hnodup : names.Nodup) (hx : x < r₁.tree.size) :
    Pending id names r₁ [] x ↔ t.size ≤ x := by
  constructor
  · rintro ⟨name, hname, -, hc⟩
    obtain ⟨c, hc', hle, -⟩ := h.child name hname
    exact Option.some.inj (hc.symm.trans hc') ▸ hle
  · intro hle
    obtain ⟨name, hname, hc⟩ := h.all hnodup x hle hx
    exact ⟨name, hname, List.not_mem_nil, hc⟩

/-- When one more member has run, its child alone is not pending any more. -/
theorem pending_append_iff {id c x : TrackerId} {names done : List String} {name : String}
    {r₁ : Run} (hl : r₁.tree.Linked) (hc : r₁.tree.child? id name = some c) :
    Pending id names r₁ done x ∧ x ≠ c ↔ Pending id names r₁ (done ++ [name]) x := by
  constructor
  · rintro ⟨⟨s, hs, hsd, hx⟩, hne⟩
    refine ⟨s, hs, fun hmem => ?_, hx⟩
    rcases List.mem_append.1 hmem with hmem | hmem
    · exact hsd hmem
    · obtain rfl := List.mem_singleton.1 hmem
      exact hne (Option.some.inj (hx.symm.trans hc))
  · rintro ⟨s, hs, hsd, hx⟩
    refine ⟨⟨s, hs, fun hmem => hsd (List.mem_append_left _ hmem), hx⟩, ?_⟩
    rintro rfl
    obtain ⟨-, rfl⟩ := hl.child?_inj hx hc
    exact hsd (List.mem_append_right _ List.mem_cons_self)

section

variable {own : Option String} {members : List (String × Entity)} {schedule : Schedule String}
  {escaping : List Path} {input : List (String × Value)} {t : TrackerTree} {id : TrackerId}
  {r₀ r₁ : Run} {Q : List String → Run → Prop}

/-- The members of an object run one after the other, each on its child, in the order that is
kept. -/
theorem runSchedule_along {keys : List String}
    (ha : schedule.Arranges own (members.map fun m => (m.1, m.2.references)) escaping)
    (hcached : schedule.cached = some keys)
    (hattached : Attached id (members.map (·.1)) input t r₁.tree)
    (hsize : r₀.tree.size ≤ t.size) (hstart : Advances id r₀ r₁)
    (advances : ∀ m ∈ members, ∀ {c : TrackerId} {r : Run}, r.tree.Linked → c < r.tree.size →
      Advances c r (m.2.process c r))
    (step : ∀ {done : List String} {name : String} {rest : List String} {e : Entity}
      {c : TrackerId} {r : Run}, keys = done ++ name :: rest → Table.get? members name = some e →
      r₁.tree.child? id name = some c → Ongoing id r₀ r₁ done r → Q done r →
      Q (done ++ [name]) (e.process c r))
    (h : Q [] r₁) :
    Ongoing id r₀ r₁ keys (runSchedule schedule (Entity.memberStages members) id r₁) ∧
      Q keys (runSchedule schedule (Entity.memberStages members) id r₁) := by
  obtain ⟨hserves, hrun⟩ := runSchedule_cached ha hcached
  rw [hrun]
  have hfirst : Ongoing id r₀ r₁ [] r₁ ∧ Q [] r₁ := ⟨⟨hstart, rfl, fun _ _ => rfl⟩, h⟩
  refine foldl_done (Q := fun done r => Ongoing id r₀ r₁ done r ∧ Q done r)
    (fun done name rest hkeys r hr => ?_) hfirst
  obtain ⟨hongoing, hQ⟩ := hr
  obtain ⟨e, he, hmem⟩ := exists_entity (hserves.mem_next hkeys)
  obtain ⟨c, hc, hle, -⟩ := hattached.child name (hserves.mem_next hkeys)
  have hl := hongoing.advances.grows.linked
  have hc' := (hongoing.child?_eq name).trans hc
  rw [runMember_eq he hc']
  exact ⟨hongoing.member hattached.grows.linked hc (Nat.le_trans hsize hle)
    (advances _ hmem hl (hl.child_lt_size hc')), step hkeys he hc hongoing hQ⟩

/-- The members of an object run one after the other, each on its child and after those it waits
for. -/
theorem runSchedule_ongoing
    (ha : schedule.Arranges own (members.map fun m => (m.1, m.2.references)) escaping)
    (hattached : Attached id (members.map (·.1)) input t r₁.tree)
    (hsize : r₀.tree.size ≤ t.size) (hstart : Advances id r₀ r₁)
    (advances : ∀ m ∈ members, ∀ {c : TrackerId} {r : Run}, r.tree.Linked → c < r.tree.size →
      Advances c r (m.2.process c r))
    (step : ∀ {done : List String} {name : String} {e : Entity} {c : TrackerId} {r : Run},
      name ∉ done → (∀ p, Schedule.Joins schedule.edges p name → p ∈ done) →
      Table.get? members name = some e → r₁.tree.child? id name = some c →
      Ongoing id r₀ r₁ done r → Q done r → Q (done ++ [name]) (e.process c r))
    (h : Q [] r₁) :
    ∃ done, (∀ name, name ∈ done ↔ name ∈ members.map (·.1)) ∧
      Ongoing id r₀ r₁ done (runSchedule schedule (Entity.memberStages members) id r₁) ∧
      Q done (runSchedule schedule (Entity.memberStages members) id r₁) := by
  obtain ⟨keys, hcached⟩ := ha.kept
  obtain ⟨hserves, -⟩ := runSchedule_cached ha hcached
  refine ⟨keys, hserves.mem, runSchedule_along ha hcached hattached hsize hstart advances
    (fun hkeys he hc hongoing hQ => ?_) h⟩
  obtain ⟨hnext, hwaits⟩ := hserves.next hkeys
  exact step hnext hwaits he hc hongoing hQ

end

end Run

/-! ## The main result -/

namespace Entity

open Run

theorem advances_start {id : TrackerId} {r : Run} (h : r.tree.Linked) (entity : Nat) :
    Advances id r (start entity id r) :=
  (Advances.touch h id (Tracker.onContent_claim entity)).trans
    (.note (Advances.touch h id (Tracker.onContent_claim entity)).grows.linked rfl) (.inl rfl)

/-- What an entity does once it has taken the tracker over. -/
theorem process_advances_start {own : Option String} {e : Entity} (h : Arranged own e)
    {id : TrackerId} {r : Run} (hl : r.tree.Linked) (hid : id < r.tree.size) :
    Advances id (start e.id id r) (e.process id r) := by
  induction h generalizing id r with
  | single hr hb =>
    obtain ⟨G, hG, he⟩ := process_local hr
    rw [he]
    exact hG.keeps (Advances.keeps _ id _)
      (fun F hF r' hr' => keeps_of_single hb hF (Advances.keeps [] id _) hr')
      (.refl (advances_start hl _).grows.linked id)
  | @array own n source resolver pipeline items hr hi ih =>
    obtain ⟨G, hG, he⟩ := process_local hr
    rw [he]
    have hid' : id < (start n id r).tree.size := (advances_start hl n).lt hid
    refine hG.keeps (Advances.keeps _ id _) (fun F hF r' hr' => ?_)
      (.refl (advances_start hl _).grows.linked id)
    obtain ⟨pipeline, hooks, heq, rfl⟩ := hF
    cases heq
    refine inspectList_keeps (fun f r₂ hf => (Advances.keeps [] id _).touch hf) ?_ hr'
    intro _ _ i v r₂ _ hr₂
    have hattach : Advances id r₂ { r₂ with tree := (r₂.tree.attach id (toString i) (some v)).2 } :=
      .of_grows (.attach hr₂.grows.linked (hr₂.lt hid') _ _) rfl
    have hlt : r₂.tree.size < (r₂.tree.attach id (toString i) (some v)).2.size := by simp
    have hitem := (advances_start hattach.grows.linked _).trans (ih hattach.grows.linked hlt)
      (.inl rfl)
    exact (hr₂.trans hattach (.inl rfl)).trans hitem (.inr hr₂.grows.size)
  | @object own n source resolver pipeline members schedule policy escaping hr hs hm ih =>
    obtain ⟨G, hG, he⟩ := process_local hr
    rw [he]
    have hid' : id < (start n id r).tree.size := (advances_start hl n).lt hid
    refine hG.keeps (Advances.keeps _ id _) (fun F hF r' hr' => ?_)
      (.refl (advances_start hl _).grows.linked id)
    obtain ⟨pipeline, hooks, heq, rfl⟩ := hF
    cases heq
    refine inspectObject_keeps (fun f r₂ hf => (Advances.keeps [] id _).touch hf)
      (fun r₂ hr₂ => ⟨hr₂.grows.linked, hr₂.lt hid'⟩) ?_ hr'
    intro input _ r₂ r₁ hr₂ hattached htrace
    have hstart : Advances id (start n id r) r₁ :=
      hr₂.trans (.of_grows hattached.grows htrace) (.inl rfl)
    obtain ⟨_, -, hongoing, -⟩ := runSchedule_ongoing (Q := fun _ _ => True) hs hattached
      hr₂.grows.size hstart
      (fun m hm {c r} hl hc => (advances_start hl _).trans (ih m hm hl hc) (.inl rfl))
      (fun _ _ _ _ _ _ => trivial) trivial
    exact hongoing.advances

theorem process_advances {own : Option String} {e : Entity} (h : Arranged own e)
    {id : TrackerId} {r : Run} (hl : r.tree.Linked) (hid : id < r.tree.size) :
    Advances id r (e.process id r) :=
  (advances_start hl _).trans (process_advances_start h hl hid) (.inl rfl)

theorem process_began {own : Option String} {e : Entity} (h : Arranged own e)
    {id : TrackerId} {r : Run} (hl : r.tree.Linked) (hid : id < r.tree.size) :
    ∃ k, Event.began k id ∈ (e.process id r).trace := by
  obtain ⟨new, hnew, -⟩ := (process_advances_start h hl hid).trace
  exact ⟨e.id, by rw [hnew]; exact List.mem_append_right _ List.mem_cons_self⟩

end Entity

end Intake
