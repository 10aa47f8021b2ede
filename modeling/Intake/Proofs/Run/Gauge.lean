import Intake.Proofs.Run.Presence
import Intake.Proofs.Run.Routine
/-!
# What a run counts

Work at a tracker notes events, and counts what it does.  `Gauge id r₀ depth new r` says what the
counters of `r` are after the events `new` at `id` and below it: as many steps have been executed
as processors have been called, and behaviours have been entered at trackers as much deeper than
`id` in the tree as they are in the count.  An entity goes on at the depth at which it began, and
what runs between entering its behaviour and leaving it at one more:

    Arranged own e → Gauged id r r.depth (e.process id r)
    Arranged own e → (inside e.body id (r.enter id)).depth = r.depth + 1

So whatever depth it begins at, nothing is left that was not entered.
-/

namespace Intake

namespace TrackerTree

variable {t t' : TrackerTree} {id x c : TrackerId} {s : String}

/-- How many trackers are around a tracker. -/
def depthOf (t : TrackerTree) (id : TrackerId) : Nat := (t.enclosing id).length

theorem Linked.depthOf_child (hl : t.Linked) (hc : t.child? id s = some c) :
    t.depthOf c = t.depthOf id + 1 := by
  rw [depthOf, hl.enclosing_child hc, List.length_cons, depthOf]

theorem Grows.depthOf_eq (h : Grows id t t') (hl : t.Linked) (hx : x < t.size) :
    t'.depthOf x = t.depthOf x := by
  rw [depthOf, h.enclosing_eq hl hx, depthOf]

end TrackerTree

namespace Run

open Entity

/-! ## What is counted at a tracker -/

/-- What work at the tracker `id` has counted since `r₀`: `new` are the events since then, and
`depth` is how deep it is.  A tracker below `id` is as much deeper than `id` in the count as it is
in the tree. -/
structure Gauge (id : TrackerId) (r₀ : Run) (depth : Nat) (new : List Event) (r : Run) :
    Prop where
  advances : Advances id r₀ r
  trace : r.trace = new ++ r₀.trace
  depth : r.depth = depth
  steps : r.steps = r₀.steps + new.countP (·.isCall)
  within : ∀ x, .entered x ∈ new → x < r.tree.size
  bound : ∀ x, .entered x ∈ new →
    r₀.depth + r.tree.depthOf x + 1 ≤ r.maxDepth + r.tree.depthOf id
  base : r₀.maxDepth ≤ r.maxDepth
  attained : r.maxDepth = r₀.maxDepth ∨ ∃ x, .entered x ∈ new ∧
    r₀.depth + r.tree.depthOf x + 1 = r.maxDepth + r.tree.depthOf id

/-- The same for some events. -/
def Gauged (id : TrackerId) (r₀ : Run) (depth : Nat) (r : Run) : Prop :=
  ∃ new, Gauge id r₀ depth new r

namespace Gauge

variable {id id' c : TrackerId} {s : String} {r₀ r r' : Run} {d d' : Nat}
  {new new' events : List Event}

theorem refl (hl : r.tree.Linked) (id : TrackerId) : Gauge id r r.depth [] r where
  advances := .refl hl id
  trace := rfl
  depth := rfl
  steps := rfl
  within _ hx := absurd hx List.not_mem_nil
  bound _ hx := absurd hx List.not_mem_nil
  base := Nat.le_refl _
  attained := .inl rfl

/-- Work at a tracker goes on at that tracker or at a new one, and enters behaviours, if any, on the
level of that one. -/
theorem trans (h : Gauge id r₀ d new r) (h' : Gauge id' r d' new' r')
    (hid : id' = id ∨ r₀.tree.size ≤ id') (hlt : id < r₀.tree.size) (hlt' : id' < r.tree.size)
    (hlevel : ∀ x, .entered x ∈ new' → d + r.tree.depthOf id = r₀.depth + r.tree.depthOf id') :
    Gauge id r₀ d' (new' ++ new) r' := by
  have hsame : ∀ x < r.tree.size, r'.tree.depthOf x = r.tree.depthOf x :=
    fun x hx => h'.advances.grows.depthOf_eq h.advances.grows.linked hx
  have hown := hsame id (h.advances.lt hlt)
  have hother := hsame id' hlt'
  have hdepth := h.depth
  have hbase := h'.base
  refine ⟨h.advances.trans h'.advances hid, ?_, h'.depth, ?_, ?_, ?_,
    Nat.le_trans h.base h'.base, ?_⟩
  · rw [h'.trace, h.trace, List.append_assoc]
  · rw [h'.steps, h.steps, List.countP_append]
    omega
  · intro x hx
    rcases List.mem_append.1 hx with hx | hx
    · exact h'.within x hx
    · exact h'.advances.lt (h.within x hx)
  · intro x hx
    rcases List.mem_append.1 hx with hx | hx
    · have hbound := h'.bound x hx
      have hlevel' := hlevel x hx
      omega
    · have hbound := h.bound x hx
      have hx' := hsame x (h.within x hx)
      omega
  · rcases h'.attained with hmax | ⟨x, hx, hmax⟩
    · rcases h.attained with hmax' | ⟨x, hx, hmax'⟩
      · exact .inl (hmax.trans hmax')
      · have hx' := hsame x (h.within x hx)
        exact .inr ⟨x, List.mem_append_right _ hx, by omega⟩
    · have hlevel' := hlevel x hx
      exact .inr ⟨x, List.mem_append_left _ hx, by omega⟩

/-- Work in which no behaviour is entered. -/
theorem silent (h : Gauge id r₀ d new r) (hlt : id < r₀.tree.size) (ha : Advances id r r')
    (htrace : r'.trace = events ++ r.trace) (hentry : ∀ x, .entered x ∉ events)
    (hsteps : r'.steps = r.steps + events.countP (·.isCall)) (hmax : r'.maxDepth = r.maxDepth)
    (hdepth : r'.depth = d') : Gauge id r₀ d' (events ++ new) r' := by
  have hstep : Gauge id r d' events r' :=
    { advances := ha
      trace := htrace
      depth := hdepth
      steps := hsteps
      within := fun x hx => absurd hx (hentry x)
      bound := fun x hx => absurd hx (hentry x)
      base := Nat.le_of_eq hmax.symm
      attained := .inl hmax }
  exact h.trans hstep (.inl rfl) hlt (h.advances.lt hlt) fun x hx => absurd hx (hentry x)

/-- A behaviour is entered. -/
theorem enter (hl : r.tree.Linked) (id : TrackerId) (hid : id < r.tree.size) :
    Gauge id r (r.depth + 1) [.entered id] (r.enter id) where
  advances := ⟨.refl hl id, [.entered id], rfl, fun _ he => .inl (List.mem_singleton.1 he ▸ rfl)⟩
  trace := rfl
  depth := rfl
  steps := rfl
  within x hx := by
    obtain rfl := Event.entered.inj (List.mem_singleton.1 hx)
    exact hid
  bound x hx := by
    obtain rfl := Event.entered.inj (List.mem_singleton.1 hx)
    have hmax := Nat.le_max_right r.maxDepth (r.depth + 1)
    show r.depth + r.tree.depthOf x + 1 ≤ max r.maxDepth (r.depth + 1) + r.tree.depthOf x
    omega
  base := Nat.le_max_left _ _
  attained := by
    show max r.maxDepth (r.depth + 1) = r.maxDepth ∨ ∃ x, Event.entered x ∈ [Event.entered id] ∧
      r.depth + r.tree.depthOf x + 1 = max r.maxDepth (r.depth + 1) + r.tree.depthOf id
    rcases Nat.le_total (r.depth + 1) r.maxDepth with hle | hle
    · exact .inl (Nat.max_eq_left hle)
    · refine .inr ⟨id, List.mem_singleton_self _, ?_⟩
      rw [Nat.max_eq_right hle]
      omega

/-- A child that was attached inside of a behaviour is processed one level deeper. -/
theorem child (h : Gauge id r₀ (r₀.depth + 1) new r) (hlt : id < r₀.tree.size)
    (hc : r.tree.child? id s = some c) (hnew : r₀.tree.size ≤ c) (h' : Gauge c r r.depth new' r') :
    Gauge id r₀ (r₀.depth + 1) (new' ++ new) r' := by
  have hl := h.advances.grows.linked
  have hchild := hl.depthOf_child hc
  rw [h.depth] at h'
  exact h.trans h' (.inr hnew) hlt (hl.child_lt_size hc) fun _ _ => by omega

end Gauge

namespace Gauged

variable {id c : TrackerId} {r₀ r r' : Run} {d d' : Nat}

theorem advances (h : Gauged id r₀ d r) : Advances id r₀ r := h.elim fun _ h => h.advances

theorem depth_eq (h : Gauged id r₀ d r) : r.depth = d := h.elim fun _ h => h.depth

/-- Work that notes no event. -/
theorem still (h : Gauged id r₀ d r) (hlt : id < r₀.tree.size) (ha : Advances id r r')
    (htrace : r'.trace = r.trace) (hsteps : r'.steps = r.steps) (hmax : r'.maxDepth = r.maxDepth)
    (hdepth : r'.depth = d') : Gauged id r₀ d' r' := by
  obtain ⟨new, h⟩ := h
  exact ⟨[] ++ new, h.silent hlt ha htrace (fun _ => List.not_mem_nil) hsteps hmax hdepth⟩

/-- Work that notes one event, other than the entry into a behaviour. -/
theorem noted {event : Event} (h : Gauged id r₀ d r) (hlt : id < r₀.tree.size)
    (ha : Advances id r r') (htrace : r'.trace = event :: r.trace)
    (hentry : ∀ x, event ≠ .entered x) (hsteps : r'.steps = r.steps + [event].countP (·.isCall))
    (hmax : r'.maxDepth = r.maxDepth) (hdepth : r'.depth = d) : Gauged id r₀ d r' := by
  obtain ⟨new, h⟩ := h
  have hsilent : ∀ x, .entered x ∉ [event] := fun x hx => hentry x (List.mem_singleton.1 hx).symm
  exact ⟨[event] ++ new, h.silent hlt ha htrace hsilent hsteps hmax hdepth⟩

theorem routine (hlt : id < r₀.tree.size) : Routine id (Gauged id r₀ d) where
  touch hf h := h.still hlt (.touch h.advances.grows.linked id hf) rfl rfl rfl h.depth_eq
  lookUp path h := h.noted hlt (.note h.advances.grows.linked rfl) rfl (fun _ he => nomatch he) rfl
    rfl h.depth_eq
  call {r} key value args h := by
    have ha : Advances id r ({ r with steps := r.steps + 1 }.note (.called id key value args)) :=
      ⟨.refl h.advances.grows.linked id, [_], rfl, by simp [Event.tracker]⟩
    exact h.noted hlt ha rfl (fun _ he => nomatch he) rfl rfl h.depth_eq

/-- New trackers do not count. -/
theorem grow {t : TrackerTree} (h : Gauged id r₀ d r) (hlt : id < r₀.tree.size)
    (hg : TrackerTree.Grows id r.tree t) : Gauged id r₀ d { r with tree := t } :=
  h.still hlt (.of_grows hg rfl) rfl rfl rfl h.depth_eq

theorem child {s : String} (h : Gauged id r₀ (r₀.depth + 1) r) (hlt : id < r₀.tree.size)
    (hc : r.tree.child? id s = some c) (hnew : r₀.tree.size ≤ c) (h' : Gauged c r r.depth r') :
    Gauged id r₀ (r₀.depth + 1) r' := by
  obtain ⟨new, h⟩ := h
  obtain ⟨new', h'⟩ := h'
  exact ⟨_, h.child hlt hc hnew h'⟩

/-- A behaviour is entered at the depth at which it is left. -/
theorem paced (hlt : id < r₀.tree.size) :
    Paced id (Gauged id r₀ r₀.depth) (Gauged id r₀ (r₀.depth + 1)) where
  outside := routine hlt
  inside := routine hlt
  start {r} n h := by
    have ha : Advances id r (start n id r) := advances_start h.advances.grows.linked n
    exact h.noted hlt ha rfl (fun _ he => nomatch he) rfl rfl h.depth_eq
  enter {r} h := by
    obtain ⟨new, h⟩ := h
    have hlt' := h.advances.lt hlt
    rw [← h.depth]
    exact ⟨_, h.trans (.enter h.advances.grows.linked id hlt') (.inl rfl) hlt hlt' fun _ _ => rfl⟩
  leave {r} h := by
    have hdepth : r.leave.depth = r₀.depth := by
      show r.depth - 1 = r₀.depth
      rw [h.depth_eq, Nat.add_sub_cancel]
    exact h.still hlt (.of_grows (.refl h.advances.grows.linked id) rfl) rfl rfl rfl hdepth

end Gauged

/-! ## Processing -/

/-- Inside of its behaviour, the inspection of the entity's kind keeps count. -/
def Measured (e : Entity) : Prop :=
  ∀ (id : TrackerId) (r₀ : Run), r₀.tree.Linked → id < r₀.tree.size → ∀ F, Inspects e.body F →
    ∀ r, Gauged id r₀ (r₀.depth + 1) r → Gauged id r₀ (r₀.depth + 1) (F id r)

section

variable {own : Option String} {e : Entity} {id : TrackerId} {r r₀ : Run}

theorem Measured.process (hm : Measured e) (h : Arranged own e) (hl : r.tree.Linked)
    (hlt : id < r.tree.size) : Gauged id r r.depth (e.process id r) := by
  have hresolves : Resolves e.source.props.default? e.resolver := by
    cases h <;> assumption
  obtain ⟨n, source, resolver, body⟩ := e
  exact (Gauged.paced hlt).process hresolves (hm id r hl hlt) ⟨[], .refl hl id⟩

/-- One item of a list. -/
theorem Measured.item {items : Entity} (hm : Measured items) (hi : Arranged none items)
    (hlt : id < r₀.tree.size) (h : Gauged id r₀ (r₀.depth + 1) r) (i : Nat) (v : Value) :
    Gauged id r₀ (r₀.depth + 1) (items.process r.tree.size
      { r with tree := (r.tree.attach id (toString i) (some v)).2 }) := by
  have hid := h.advances.lt hlt
  have hgrows := TrackerTree.Grows.attach h.advances.grows.linked hid (toString i) (some v)
  have hc := TrackerTree.child?_attach hid (toString i) (some v) (toString i)
  rw [if_pos rfl] at hc
  exact (h.grow hlt hgrows).child hlt hc h.advances.grows.size
    (hm.process hi hgrows.linked (hgrows.linked.child_lt_size hc))

theorem measured_of_arranged (h : Arranged own e) : Measured e := by
  induction h with
  | single hr hb =>
    intro id r₀ hl hlt F hF r hr'
    exact (Gauged.routine hlt).inspect hb hF hr'
  | array hr hi ih =>
    intro id r₀ hl hlt F hF r hr'
    obtain ⟨pipeline, hooks, heq, rfl⟩ := hF
    cases heq
    exact inspectList_keeps (fun f r₂ hf => (Gauged.routine hlt).touch hf)
      (fun _ _ i v r₂ _ hr₂ => ih.item hi hlt hr₂ i v) hr'
  | @object own n source resolver pipeline members schedule policy escaping hr ha hm ih =>
    intro id r₀ hl hlt F hF r hr'
    obtain ⟨pipeline, hooks, heq, rfl⟩ := hF
    cases heq
    refine inspectObject_grown (fun f r₂ hf => (Gauged.routine hlt).touch hf)
      (fun r₂ hr₂ => ⟨hr₂.advances.grows.linked, hr₂.advances.lt hlt⟩) ?_ hr'
    intro input _ r₂ t hr₂ hattached
    have hstart : Gauged id r₀ (r₀.depth + 1) { r₂ with tree := t } := hr₂.grow hlt hattached.grows
    obtain ⟨done, -, -, hdone⟩ := runSchedule_ongoing (Q := fun _ => Gauged id r₀ (r₀.depth + 1))
      ha hattached hr₂.advances.grows.size hstart.advances
      (fun m hm' {c r} hl hlt => process_advances (hm m hm') hl hlt)
      (fun {done name e c r} _ _ he hc hongoing hgauged => by
        have hmem := Table.mem_of_get? he
        obtain ⟨d, hd, hle, -⟩ := hattached.child name (Table.mem_names_of_get? he)
        obtain rfl : c = d := Option.some.inj (hc.symm.trans hd)
        have hc' := (hongoing.child?_eq name).trans hc
        have hl' := hgauged.advances.grows.linked
        exact hgauged.child hlt hc' (Nat.le_trans hr₂.advances.grows.size hle)
          ((ih _ hmem).process (hm _ hmem) hl' (hl'.child_lt_size hc')))
      hstart
    exact hdone

/-- What an entity does at a tracker is counted, and it goes on at the depth at which it began. -/
theorem gauged_process (h : Arranged own e) (hl : r.tree.Linked) (hlt : id < r.tree.size) :
    Gauged id r r.depth (e.process id r) :=
  (measured_of_arranged h).process h hl hlt

theorem gauged_inside (h : Arranged own e) (hl : r₀.tree.Linked) (hlt : id < r₀.tree.size)
    (hr : Gauged id r₀ (r₀.depth + 1) r) : Gauged id r₀ (r₀.depth + 1) (inside e.body id r) :=
  (Gauged.routine hlt).inside (measured_of_arranged h id r₀ hl hlt) hr

/-- A behaviour is left at the depth at which it was entered. -/
theorem inside_depth (h : Arranged own e) (hl : r.tree.Linked) (hlt : id < r.tree.size) :
    (inside e.body id (r.enter id)).depth = r.depth + 1 :=
  (gauged_inside h hl hlt ⟨_, .enter hl id hlt⟩).depth_eq

/-- What happens inside of a behaviour happens after it was entered: it may as well be counted from
there on. -/
theorem inside_trace (h : Arranged own e) (hl : r.tree.Linked) (hlt : id < r.tree.size) :
    ∃ new, (inside e.body id (r.enter id)).trace = new ++ .entered id :: r.trace := by
  have hl' : ({ r.enter id with depth := r.depth } : Run).tree.Linked := hl
  have hopened : Gauged id { r.enter id with depth := r.depth } (r.depth + 1) (r.enter id) :=
    Gauged.still ⟨[], .refl hl' id⟩ hlt (.of_grows (.refl hl id) rfl) rfl rfl rfl rfl
  obtain ⟨new, hnew⟩ := gauged_inside h hl' hlt hopened
  exact ⟨new, hnew.trace⟩

end

end Run

end Intake
