import Intake.Proofs.Run.Presence
import Intake.Proofs.Run.Siblings
import Intake.Proofs.Tracker.Steady
/-!
# Members run in their turn

When a member of an object runs, all members that it waits for have what they have in the end, and
what it makes of its child then is what the child has in the end (`RanOn`):

    Arranged own e → e.Standard → Bare id r k → e.schedule? = some schedule →
      e.child? name = some member → (e.process id r).tree.child? id name = some c →
      ∃ r', RanOn schedule k.value id name member c r' (e.process id r)

So what a single member makes of values of its siblings can be said of the final values.
-/

namespace Intake

namespace Run

open Entity TrackerTree

/-- The member has run on the child `c` of `id`, in the run `r'`.  The child began with the part of
the value `v`, the members that are waited for had become what they are in `r`, and the child still
is what the member made of it. -/
structure RanOn (schedule : Schedule String) (v : Option Value) (id : TrackerId) (name : String)
    (member : Entity) (c : TrackerId) (r' r : Run) : Prop where
  bare : Intake.Bare c r'
    { value := v.bind (·.under? name), parent := some id, segment := some name }
  beside : ∀ s, r'.tree.child? id s = r.tree.child? id s
  waited : ∀ {p x}, Schedule.Joins schedule.edges p name → r.tree.child? id p = some x →
    r'.tree.get? x = r.tree.get? x
  made : (member.process c r').tree.get? c = r.tree.get? c

/-- The work at `id` has come from `r₀` to `r`, and the members whose children are there have run in
their turn. -/
structure InTurn (e : Entity) (v : Option Value) (id : TrackerId) (r₀ r : Run) : Prop where
  advances : Advances id r₀ r
  ran : ∀ {schedule : Schedule String} {name : String} {member : Entity} {c : TrackerId},
    e.schedule? = some schedule → e.child? name = some member → r.tree.child? id name = some c →
      ∃ r', RanOn schedule v id name member c r' r

section

variable {schedule : Schedule String} {e member : Entity} {v : Option Value} {id c : TrackerId}
  {name : String} {r' r₀ r r₂ : Run}

/-- What leaves the child and those that it waited for as they are. -/
theorem RanOn.keeps (h : RanOn schedule v id name member c r' r)
    (hc : r.tree.child? id name = some c)
    (hchild : ∀ s, r₂.tree.child? id s = r.tree.child? id s)
    (hget : ∀ {s x}, s = name ∨ Schedule.Joins schedule.edges s name →
      r.tree.child? id s = some x → r₂.tree.get? x = r.tree.get? x) :
    RanOn schedule v id name member c r' r₂ := by
  refine ⟨h.bare, fun s => (h.beside s).trans (hchild s).symm, fun {p x} hp hx => ?_, ?_⟩
  · rw [hchild] at hx
    exact (h.waited hp hx).trans (hget (.inr hp) hx).symm
  · exact h.made.trans (hget (.inl rfl) hc).symm

/-- In the beginning there are no children. -/
theorem InTurn.bare {k : Tracker} (hb : Intake.Bare id r k) : InTurn e v id r r := by
  refine ⟨.refl hb.linked id, fun _ _ hc => ?_⟩
  rw [child?_of_get? hb.get, Tracker.child?, hb.children] at hc
  cases hc

/-- The tracker itself changes, but for its children. -/
theorem InTurn.own (h : InTurn e v id r₀ r) (ha : Advances id r r₂)
    (hchild : ∀ s, r₂.tree.child? id s = r.tree.child? id s) : InTurn e v id r₀ r₂ := by
  refine ⟨h.advances.trans ha (.inl rfl), fun hs hm hc => ?_⟩
  rw [hchild] at hc
  obtain ⟨r', hran⟩ := h.ran hs hm hc
  refine ⟨r', hran.keeps hc hchild fun _ hx => ?_⟩
  have hl := h.advances.grows.linked
  exact ha.grows.frame (hl.child_lt_size hx) (Nat.ne_of_gt (hl.child_lt hx))

theorem InTurn.keeps (e : Entity) (v : Option Value) (id : TrackerId) (r₀ : Run)
    (paths : List Path) : Keeps paths id (InTurn e v id r₀) where
  touch hf h := h.own (.touch h.advances.grows.linked id hf) fun s =>
    ((SameLinks.update _ id hf.links).child?_eq id s).symm
  tally htree htrace h :=
    h.own (.of_grows (htree ▸ .refl h.advances.grows.linked id) htrace) fun s => by rw [htree]
  note he _ h := h.own (.note h.advances.grows.linked he) fun _ => rfl
  lookUp _ h := h.own (.note h.advances.grows.linked rfl) fun _ => rfl

/-- Of the members that are done, each has run in its turn, after those that it waits for. -/
def DoneInTurn (schedule : Schedule String) (v : Option Value) (id : TrackerId)
    (members : List (String × Entity)) (done : List String) (r : Run) : Prop :=
  ∀ name ∈ done, (∀ p, Schedule.Joins schedule.edges p name → p ∈ done) ∧
    ∀ {member c}, Table.get? members name = some member → r.tree.child? id name = some c →
      ∃ r', RanOn schedule v id name member c r' r

/-- One more member runs. -/
theorem DoneInTurn.append {own : Option String} {members : List (String × Entity)}
    {done : List String} (h : DoneInTurn schedule v id members done r) (hnext : name ∉ done)
    (hwaits : ∀ p, Schedule.Joins schedule.edges p name → p ∈ done)
    (hm : Table.get? members name = some member) (harranged : Arranged own member)
    (hc : r.tree.child? id name = some c)
    (hb : Intake.Bare c r
      { value := v.bind (·.under? name), parent := some id, segment := some name }) :
    DoneInTurn schedule v id members (done ++ [name]) (member.process c r) := by
  have hl := hb.linked
  have ha : Advances c r (member.process c r) :=
    process_advances harranged hl (lt_size_of_get? hb.get)
  have hchild : ∀ s, (member.process c r).tree.child? id s = r.tree.child? id s :=
    ha.grows.child?_parent hl hc
  -- the children of other members stay as they are
  have hget : ∀ {s x}, s ∈ done → r.tree.child? id s = some x →
      (member.process c r).tree.get? x = r.tree.get? x := by
    intro s x hs hx
    refine ha.grows.frame (hl.child_lt_size hx) ?_
    rintro rfl
    obtain ⟨-, rfl⟩ := hl.child?_inj hx hc
    exact hnext hs
  intro s hs
  rcases List.mem_append.1 hs with hs | hs
  · obtain ⟨hbefore, hran⟩ := h s hs
    refine ⟨fun p hp => List.mem_append_left _ (hbefore p hp), fun {m d} hm' hd => ?_⟩
    rw [hchild] at hd
    obtain ⟨r', hran⟩ := hran hm' hd
    refine ⟨r', hran.keeps hd hchild fun {p x} hp hx => hget ?_ hx⟩
    rcases hp with rfl | hp
    · exact hs
    · exact hbefore p hp
  · obtain rfl := List.mem_singleton.1 hs
    refine ⟨fun p hp => List.mem_append_left _ (hwaits p hp), fun {m d} hm' hd => ?_⟩
    rw [hchild] at hd
    obtain rfl := Option.some.inj (hm.symm.trans hm')
    obtain rfl := Option.some.inj (hc.symm.trans hd)
    refine ⟨r, hb, fun s => (hchild s).symm, fun {p x} hp hx => ?_, rfl⟩
    rw [hchild] at hx
    exact (hget (hwaits p hp) hx).symm

end

/-- In an entity that has processed a tracker, each member has run in its turn. -/
theorem process_inTurn {own : Option String} {e : Entity} (h : Arranged own e) (hs : e.Standard)
    {id : TrackerId} {r : Run} {k : Tracker} (hb : Intake.Bare id r k)
    {schedule : Schedule String} (hschedule : e.schedule? = some schedule) :
    InTurn e k.value id r (e.process id r) := by
  obtain ⟨p, members, policy, escaping, hbody, ha, hm⟩ := h.of_schedule? hschedule
  have hresolves := (h.compiled hs.fits).resolves
  obtain ⟨n, source, resolver, body⟩ := e
  obtain rfl : body = _ := hbody
  have hkeeps := InTurn.keeps (.mk n source resolver
    (.behaviour p (.object members schedule policy escaping))) k.value id r
  refine process_inspects hresolves (registered_of_standard hs) (hkeeps _) hb.get
    (quiet_of_bare hb) (.bare hb) fun r' k' hk' hvalue hr' => ?_
  refine inspectObject_keeps (fun f r₂ hf => (hkeeps []).touch hf)
    (fun r₂ hr₂ => ⟨hr₂.advances.grows.linked, hr₂.advances.lt (lt_size_of_get? hb.get)⟩)
    (fun input hv r₂ r₁ hr₂ hattached htrace => ?_) hr'
  rw [value?_of_composite hk' hv rfl hvalue]
  have hadvances : Advances id r r₁ :=
    hr₂.advances.trans (.of_grows hattached.grows htrace) (.inl rfl)
  have hstep : ∀ {done : List String} {name : String} {member : Entity} {c : TrackerId} {r₃ : Run},
      name ∉ done → (∀ p, Schedule.Joins schedule.edges p name → p ∈ done) →
      Table.get? members name = some member → r₁.tree.child? id name = some c →
      Ongoing id r r₁ done r₃ → DoneInTurn schedule (some (.object input)) id members done r₃ →
      DoneInTurn schedule (some (.object input)) id members (done ++ [name])
        (member.process c r₃) := by
    intro done name member c r₃ hnext hwaits hmember hc ho hQ
    obtain ⟨c', hc', -, hget⟩ := hattached.child name (Table.mem_names_of_get? hmember)
    obtain rfl : c = c' := Option.some.inj (hc.symm.trans hc')
    exact hQ.append hnext hwaits hmember (hm _ (Table.mem_of_get? hmember))
      ((ho.child?_eq name).trans hc)
      ⟨ho.advances.grows.linked, (ho.pending hnext hc).trans hget, rfl, rfl⟩
  obtain ⟨done, hdone, hongoing, hall⟩ := runSchedule_ongoing ha hattached
    hr₂.advances.grows.size hadvances (fun m hm' => process_advances (hm m hm')) hstep
    (List.forall_mem_nil _)
  refine ⟨hongoing.advances, fun hs' hm' hc => ?_⟩
  obtain rfl := Option.some.inj hs'
  exact (hall _ ((hdone _).2 (Table.mem_names_of_get? hm'))).2 hm' hc

end Run

end Intake
