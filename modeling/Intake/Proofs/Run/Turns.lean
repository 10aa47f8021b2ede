import Intake.Proofs.Entity.Alike
import Intake.Proofs.Run.InPace
/-!
# Members in their turn

Two runs process the members of an object, each in an order of its own.  What the first run did at
each member is kept as a `Turn`: in which state it came to the member, and that neither the members
that had to run before nor what became of this one have moved since.  The second run then finds, at
each member, what the first one found there, since a path of a member leads to members that have run
before in both, or out of the object (`Scene.agreed`).  So the children come to resemble each other
one by one, whatever the two orders are:

    Scene … r₀ r₁ → Scene … s₀ s₁ →
      Level R i j … (runSchedule schedule … r₁) (runSchedule schedule' … s₁)
-/

namespace Intake

open TrackerTree Run Entity Schedule

/-- A tracker without children. -/
def TrackerTree.Childless (i : TrackerId) (t : TrackerTree) : Prop :=
  ∃ k, t.get? i = some k ∧ k.children = []

namespace TrackerTree.Childless

variable {i : TrackerId} {t : TrackerTree}

theorem lt (h : Childless i t) : i < t.size := by
  obtain ⟨k, hk, -⟩ := h
  exact lt_size_of_get? hk

theorem update (h : Childless i t) {f : Tracker → Tracker} (hf : Tracker.OnContent f) :
    Childless i (t.update i f) := by
  obtain ⟨k, hk, hchildren⟩ := h
  refine ⟨f k, by rw [get?_update_self, hk, Option.map_some], ?_⟩
  rw [(hf.links k).2.2, hchildren]

end TrackerTree.Childless

/-- Trackers that carry the same value and nothing else. -/
theorem TrackerTree.Resembles.of_bare {R : List String → List String → Prop} (hR : Shuffles R)
    {t u : TrackerTree} {i j : TrackerId} {k l : Tracker} (hk : t.get? i = some k)
    (hl : u.get? j = some l) (hvalue : k.value = l.value) (hissues : k.issues = [] ∧ l.issues = [])
    (hchildren : k.children = [] ∧ l.children = []) : Resembles R t u i j := by
  refine .mk hk hl ⟨hvalue, ?_, ?_⟩ ?_ fun {s c d} hc _ => ?_
  · rw [hissues.1, hissues.2]
    exact .nil
  · rw [hchildren.1, hchildren.2]
    exact hR.refl _
  · rw [hchildren.1, hchildren.2]
    exact ⟨List.nodup_nil, List.nodup_nil⟩
  · rw [child?_of_get? hk, Tracker.child?, hchildren.1] at hc
    cases hc

namespace Run

variable {R : List String → List String → Prop} {own : Option String} {i j : TrackerId}
  {e e' : Entity}

/-- Where two entities that are alike may begin. -/
structure Ready (R : List String → List String → Prop) (own : Option String) (e : Entity)
    (i j : TrackerId) (r s : Run) : Prop where
  linked : r.tree.Linked ∧ s.tree.Linked
  childless : Childless i r.tree ∧ Childless j s.tree
  alike : r.tree.Resembles R s.tree i j
  placed : Placed own i r.tree ∧ Placed own j s.tree
  agreed : ∀ path ∈ e.references, Agreed own i j r.tree s.tree path

/-- From where they are ready, the entities go in pace. -/
def Mimics (R : List String → List String → Prop) (own : Option String) (e e' : Entity) : Prop :=
  ∀ i j r s, Ready R own e i j r s → InPace R i j r s (e.process i r) (e'.process j s)

/-! ## One run -/

section

variable {members : List (String × Entity)} {schedule : Schedule String} {escaping : List Path}
  {input : List (String × Value)} {r₀ r₁ r r' : Run} {done : List String} {name p : String}
  {member : Entity} {c d : TrackerId}

/-- An object has attached children for its members, and none of them has run. -/
structure Scene (own : Option String) (i : TrackerId) (members : List (String × Entity))
    (schedule : Schedule String) (escaping : List Path) (input : List (String × Value))
    (r₀ r₁ : Run) : Prop where
  arranges : schedule.Arranges own (members.map fun m => (m.1, m.2.references)) escaping
  arranged : ∀ m ∈ members, Arranged (some m.1) m.2
  linked : r₀.tree.Linked
  start : Advances i r₀ r₁
  attached : ∃ t, Attached i (members.map (·.1)) input t r₁.tree ∧ r₀.tree.size ≤ t.size ∧
    ∀ s, t.child? i s = none

/-- A member has the child that was attached for it. -/
theorem Scene.exists_child (h : Scene own i members schedule escaping input r₀ r₁)
    (hname : name ∈ members.map (·.1)) : ∃ c, r₁.tree.child? i name = some c ∧
      r₀.tree.size ≤ c ∧ r₁.tree.get? c =
        some { value := Value.lookup? name input, parent := some i, segment := some name } := by
  obtain ⟨t, hattached, hsize, -⟩ := h.attached
  obtain ⟨c, hc, hle, hget⟩ := hattached.child name hname
  exact ⟨c, hc, Nat.le_trans hsize hle, hget⟩

theorem Scene.child?_eq_none (h : Scene own i members schedule escaping input r₀ r₁)
    (hname : name ∉ members.map (·.1)) : r₁.tree.child? i name = none := by
  obtain ⟨t, hattached, -, hnone⟩ := h.attached
  exact (hattached.other name hname).trans (hnone name)

/-- A member does not move the others. -/
theorem Ongoing.unmoved (h : Ongoing i r₀ r₁ done r) (hc : r₁.tree.child? i name = some c)
    (hd : r₁.tree.child? i p = some d) (hne : p ≠ name) (ha : Advances c r r') :
    Unmoved r.tree r'.tree d := by
  have hl := h.advances.grows.linked
  have hc := (h.child?_eq name).trans hc
  have hd := (h.child?_eq p).trans hd
  exact ha.grows.unmoved hl (hl.child_lt_size hd) (hl.not_below_sibling hd hc hne)

/-- The member `name` ran on its child `c` from the state `r` on.  When the members in `done` have
run, which has led to `r'`, the members that it waited for are as they were then, and its child is
as it was left. -/
structure Turn (schedule : Schedule String) (i : TrackerId) (r₀ r₁ : Run) (name : String)
    (member : Entity) (c : TrackerId) (r : Run) (done : List String) (r' : Run) : Prop where
  reached : ∃ earlier, Ongoing i r₀ r₁ earlier r ∧ name ∉ earlier
  before : ∀ {p d}, Joins schedule.edges p name → r₁.tree.child? i p = some d →
    p ∈ done ∧ Unmoved r.tree r'.tree d
  after : Unmoved (member.process c r).tree r'.tree c

/-- The turns of the members in `done`, from the states `pre` to the states `post`. -/
structure History (members : List (String × Entity)) (schedule : Schedule String) (i : TrackerId)
    (r₀ r₁ : Run) (pre post : String → Run) (done : List String) (r' : Run) : Prop where
  turn : ∀ {name member c}, name ∈ done → Table.get? members name = some member →
    r₁.tree.child? i name = some c → post name = member.process c (pre name) ∧
      Turn schedule i r₀ r₁ name member c (pre name) done r'
  steps : (∀ name ∈ done, (pre name).steps ≤ (post name).steps) →
    r'.steps = r₁.steps + (done.map fun name => (post name).steps - (pre name).steps).sum

variable {pre post : String → Run}

/-- One more member runs. -/
theorem History.step (h : History members schedule i r₀ r₁ pre post done r)
    (ho : Ongoing i r₀ r₁ done r) (hm : Table.get? members name = some member)
    (hc : r₁.tree.child? i name = some c) (hname : name ∉ done)
    (hjoins : ∀ p, Joins schedule.edges p name → p ∈ done)
    (ha : Advances c r (member.process c r)) :
    History members schedule i r₀ r₁ (Function.update pre name r)
      (Function.update post name (member.process c r)) (done ++ [name]) (member.process c r) := by
  have hold : ∀ {other}, other ∈ done → other ≠ name := by
    rintro other hother rfl
    exact hname hother
  refine ⟨fun {other member' c'} hother hm' hc' => ?_, fun hle => ?_⟩
  · rcases List.mem_append.1 hother with hother | hother
    · obtain ⟨hpost, hturn⟩ := h.turn hother hm' hc'
      rw [Function.update_of_ne (hold hother), Function.update_of_ne (hold hother)]
      refine ⟨hpost, hturn.reached, fun {p d} hj hd => ?_, ?_⟩
      · obtain ⟨hp, hunmoved⟩ := hturn.before hj hd
        exact ⟨List.mem_append_left _ hp, hunmoved.trans (ho.unmoved hc hd (hold hp) ha)⟩
      · exact hturn.after.trans (ho.unmoved hc hc' (hold hother) ha)
    · obtain rfl := List.mem_singleton.1 hother
      obtain rfl := Option.some.inj (hm.symm.trans hm')
      obtain rfl := Option.some.inj (hc.symm.trans hc')
      rw [Function.update_self, Function.update_self]
      refine ⟨rfl, ⟨done, ho, hname⟩, fun {p d} hj hd => ?_, .refl _ _⟩
      have hp := hjoins p hj
      exact ⟨List.mem_append_left _ hp, ho.unmoved hc hd (hold hp) ha⟩
  · have hlast := hle name (by simp)
    rw [Function.update_self, Function.update_self] at hlast
    have hsame : (done.map fun other =>
        (Function.update post name (member.process c r) other).steps -
          (Function.update pre name r other).steps) =
        done.map fun other => (post other).steps - (pre other).steps := by
      refine List.map_congr_left fun other hother => ?_
      rw [Function.update_of_ne (hold hother), Function.update_of_ne (hold hother)]
    have hsteps := h.steps fun other hother => by
      have hle := hle other (List.mem_append_left _ hother)
      rwa [Function.update_of_ne (hold hother), Function.update_of_ne (hold hother)] at hle
    rw [List.map_append, List.sum_append, hsame, List.map_singleton, List.sum_singleton,
      Function.update_self, Function.update_self]
    omega

/-- A run over the members of an object has a history. -/
theorem Scene.exists_history (h : Scene own i members schedule escaping input r₀ r₁)
    {keys : List String} (hcached : schedule.cached = some keys) :
    ∃ pre post, Ongoing i r₀ r₁ keys (runSchedule schedule (memberStages members) i r₁) ∧
      History members schedule i r₀ r₁ pre post keys
        (runSchedule schedule (memberStages members) i r₁) := by
  obtain ⟨t, hattached, hsize, -⟩ := h.attached
  obtain ⟨hserves, -⟩ := runSchedule_cached h.arranges hcached
  have hadvances : ∀ m ∈ members, ∀ {c : TrackerId} {r : Run}, r.tree.Linked → c < r.tree.size →
      Advances c r (m.2.process c r) :=
    fun m hm => process_advances (h.arranged m hm)
  obtain ⟨hongoing, pre, post, hall⟩ := runSchedule_along
    (Q := fun done r => ∃ pre post, History members schedule i r₀ r₁ pre post done r)
    h.arranges hcached hattached hsize h.start hadvances
    (fun {done name rest member c r} hkeys hm hc ho hQ => by
      obtain ⟨pre, post, hQ⟩ := hQ
      obtain ⟨hname, hjoins⟩ := hserves.next hkeys
      have hl := ho.advances.grows.linked
      have hlt := hl.child_lt_size ((ho.child?_eq name).trans hc)
      exact ⟨_, _, hQ.step ho hm hc hname hjoins
        (hadvances _ (Table.mem_of_get? hm) hl hlt)⟩)
    ⟨fun _ => r₁, fun _ => r₁, fun hname => absurd hname List.not_mem_nil, fun _ => rfl⟩
  exact ⟨pre, post, hongoing, hall⟩

end

/-! ## Two runs -/

section

variable {members members' : List (String × Entity)} {schedule schedule' : Schedule String}
  {escaping escaping' : List Path} {input : List (String × Value)} {r₀ r₁ r₂ r s₀ s₁ s s' : Run}
  {done done' : List String} {name : String} {member member' : Entity} {c d : TrackerId}
  {path : Path} {pre post : String → Run}

/-- What a path reads through one of the names in front of it is the same for two objects. -/
def ReadsAlike (i j : TrackerId) (r s : Run) (name : String) : Prop :=
  ∀ rest, (s.tree.follow j (name :: rest)).bind s.tree.value? =
    (r.tree.follow i (name :: rest)).bind r.tree.value?

section

variable (h : Scene own i members schedule escaping input r₀ r₁)
  (h' : Scene own j members' schedule' escaping' input s₀ s₁)
  (hnames : ∀ s, s ∈ members.map (·.1) ↔ s ∈ members'.map (·.1))
  (ho : Ongoing i r₀ r₁ done r) (ho' : Ongoing j s₀ s₁ done' s)

include h h' hnames ho ho'

/-- Both objects have children for the members. -/
theorem Scene.exists_children {p : String} (hp : p ∈ members.map (·.1)) :
    ∃ x y, (r₁.tree.child? i p = some x ∧ s₁.tree.child? j p = some y) ∧
      r.tree.child? i p = some x ∧ s.tree.child? j p = some y := by
  obtain ⟨x, hx, -⟩ := h.exists_child hp
  obtain ⟨y, hy, -⟩ := h'.exists_child ((hnames p).1 hp)
  exact ⟨x, y, ⟨hx, hy⟩, (ho.child?_eq p).trans hx, (ho'.child?_eq p).trans hy⟩

/-- They have none for other names. -/
theorem Scene.no_children {p : String} (hp : p ∉ members.map (·.1)) :
    r.tree.child? i p = none ∧ s.tree.child? j p = none :=
  ⟨(ho.child?_eq p).trans (h.child?_eq_none hp),
    (ho'.child?_eq p).trans (h'.child?_eq_none (mt (hnames p).2 hp))⟩

theorem Scene.readsAlike_other {p : String} (hp : p ∉ members.map (·.1)) :
    ReadsAlike i j r s p := by
  intro rest
  obtain ⟨hx, hy⟩ := h.no_children h' hnames ho ho' hp
  rw [follow_cons, follow_cons, hx, hy]
  rfl

variable (hR : Shuffles R) {p : String}
  (hbefore : ∀ {x y}, Joins schedule.edges p name → Joins schedule'.edges p name →
    r₁.tree.child? i p = some x → s₁.tree.child? j p = some y → r.tree.Resembles R s.tree x y)

include hR hbefore

/-- What is read through a member that has run before is alike, and it is another member. -/
theorem Scene.readsAlike_member (hp : p ∈ members.map (·.1))
    (hj : Joins schedule.edges p name) (hj' : Joins schedule'.edges p name) :
    p ≠ name ∧ ReadsAlike i j r s p := by
  obtain ⟨x, y, ⟨hx, hy⟩, hx', hy'⟩ := h.exists_children h' hnames ho ho' hp
  refine ⟨?_, fun rest => ?_⟩
  · rintro rfl
    exact h.arranges.sound.acyclic _ (.single hj)
  · rw [follow_cons, follow_cons, hx', hy']
    exact ((hbefore hj hj' hx hy).value_eq hR rest).symm

end

/-- A path that leaves the object is agreed for a member if it is for the object. -/
theorem Scene.agreed_escaping (h : Scene own i members schedule escaping input r₀ r₁)
    (h' : Scene own j members' schedule' escaping' input s₀ s₁)
    (hagreed : Agreed own i j r₀.tree s₀.tree path)
    (ho : Ongoing i r₀ r₁ done r) (ho' : Ongoing j s₀ s₁ done' s)
    (hm : name ∈ members.map (·.1)) (hm' : name ∈ members'.map (·.1))
    (hc : r₁.tree.child? i name = some c) (hd : s₁.tree.child? j name = some d)
    {first : String} {rest : List String} (hs : path.segments = first :: rest)
    (hown : own ≠ some first)
    (hnone : r.tree.child? i first = none ∧ s.tree.child? j first = none) :
    Agreed (some name) c d r.tree s.tree path := by
  rcases hagreed with ⟨_, _, hown', hs'⟩ | ⟨v, hv, hv'⟩
  · obtain ⟨rfl, -⟩ := List.cons.inj (hs.symm.trans hs')
    exact absurd hown' hown
  · obtain ⟨c', hc', hnew, -⟩ := h.exists_child hm
    obtain ⟨d', hd', hnew', -⟩ := h'.exists_child hm'
    obtain rfl := Option.some.inj (hc.symm.trans hc')
    obtain rfl := Option.some.inj (hd.symm.trans hd')
    have hcr := (ho.child?_eq name).trans hc
    have hds := (ho'.child?_eq name).trans hd
    refine .inr ⟨v, ?_, ?_⟩
    · exact steady_outside ho.advances.grows.linked hcr hnone.1 hs fun t' hg =>
        hv t' (ho.advances.grows.trans hg (.inr hnew))
    · exact steady_outside ho'.advances.grows.linked hds hnone.2 hs fun u' hg =>
        hv' u' (ho'.advances.grows.trans hg (.inr hnew'))

/-- What a member looks up is agreed if the members that it waits for resemble each other: it leads
to one of them, or it was agreed for the object. -/
theorem Scene.agreed (hR : Shuffles R) (h : Scene own i members schedule escaping input r₀ r₁)
    (h' : Scene own j members' schedule' escaping' input s₀ s₁)
    (hnames : ∀ s, s ∈ members.map (·.1) ↔ s ∈ members'.map (·.1))
    (hplaced : Placed own i r₀.tree ∧ Placed own j s₀.tree)
    (hescaping : ∀ path ∈ escaping, Agreed own i j r₀.tree s₀.tree path)
    (ho : Ongoing i r₀ r₁ done r) (ho' : Ongoing j s₀ s₁ done' s)
    (hm : Table.get? members name = some member) (hm' : Table.get? members' name = some member')
    (hc : r₁.tree.child? i name = some c) (hd : s₁.tree.child? j name = some d)
    (hbefore : ∀ {p x y}, Joins schedule.edges p name → Joins schedule'.edges p name →
      r₁.tree.child? i p = some x → s₁.tree.child? j p = some y → r.tree.Resembles R s.tree x y)
    (hpath : path ∈ member.references) (hpath' : path ∈ member'.references) :
    Agreed (some name) c d r.tree s.tree path := by
  have hkept := h.arranges.courses (name, member.references)
    (List.mem_map.2 ⟨(name, member), Table.mem_of_get? hm, rfl⟩) path hpath
  have hkept' := h'.arranges.courses (name, member'.references)
    (List.mem_map.2 ⟨(name, member'), Table.mem_of_get? hm', rfl⟩) path hpath'
  rw [Table.names_map] at hkept hkept'
  rw [← course_congr hnames] at hkept'
  have hl := ho.advances.grows.linked
  have hl' := ho'.advances.grows.linked
  have hcr := (ho.child?_eq name).trans hc
  have hds := (ho'.child?_eq name).trans hd
  have hread : ∀ {p}, course own (members.map (·.1)) name path = .after p →
      p ≠ name ∧ ReadsAlike i j r s p := by
    intro p hcourse
    rw [hcourse] at hkept hkept'
    exact h.readsAlike_member h' hnames ho ho' hR hbefore (mem_of_course_after hcourse) hkept hkept'
  cases hs : path.segments with
  | nil => exact .inr ⟨none, steady_empty hs, steady_empty hs⟩
  | cons first rest =>
    rcases course_cases own (members.map (·.1)) name hs with ⟨rfl, -⟩ | ⟨hne, hmem, hcourse⟩ |
      ⟨-, -, -, hcourse⟩ | ⟨hmem, hown, second, rest', rfl, hback⟩ | ⟨-, hmem, hown, hcourse⟩
    · exact .inl ⟨first, rest, rfl, hs⟩
    · -- to another member
      obtain ⟨x, y, -, hx, hy⟩ := h.exists_children h' hnames ho ho' hmem
      refine .inr ⟨_, steady_sibling hl hcr (by rw [hx]; rfl) hne hs, ?_⟩
      rw [← (hread hcourse).2 rest]
      exact steady_sibling hl' hds (by rw [hy]; rfl) hne hs
    · rw [hcourse] at hkept
      exact hkept.elim
    · -- out of the object, and back into it by its own name
      obtain ⟨p, hp⟩ := hplaced.1.grow h.linked ho.advances.grows first hown
      obtain ⟨q, hq⟩ := hplaced.2.grow h'.linked ho'.advances.grows first hown
      obtain ⟨hnone, hnone'⟩ := h.no_children h' hnames ho ho' hmem
      obtain ⟨hne, hsame⟩ : second ≠ name ∧ ReadsAlike i j r s second := by
        rcases hback with ⟨-, hcourse⟩ | ⟨hsecond, -⟩
        · exact hread hcourse
        · exact ⟨fun he => hsecond (he ▸ Table.mem_names_of_get? hm),
            h.readsAlike_other h' hnames ho ho' hsecond⟩
      refine .inr ⟨_, steady_reentering hl hcr hnone hp hne hs, ?_⟩
      rw [← hsame rest']
      exact steady_reentering hl' hds hnone' hq hne hs
    · rw [hcourse] at hkept
      exact h.agreed_escaping h' (hescaping path hkept) ho ho' (Table.mem_names_of_get? hm)
        (Table.mem_names_of_get? hm') hc hd hs hown (h.no_children h' hnames ho ho' hmem)

/-- Where a member begins in two runs it is ready, if the members that it waits for resemble each
other. -/
theorem Scene.ready (hR : Shuffles R) (h : Scene own i members schedule escaping input r₀ r₁)
    (h' : Scene own j members' schedule' escaping' input s₀ s₁)
    (hnames : ∀ s, s ∈ members.map (·.1) ↔ s ∈ members'.map (·.1))
    (hplaced : Placed own i r₀.tree ∧ Placed own j s₀.tree)
    (hescaping : ∀ path ∈ escaping, Agreed own i j r₀.tree s₀.tree path)
    (ho : Ongoing i r₀ r₁ done r) (ho' : Ongoing j s₀ s₁ done' s) (hdone : name ∉ done)
    (hdone' : name ∉ done')
    (hm : Table.get? members name = some member) (hm' : Table.get? members' name = some member')
    (hc : r₁.tree.child? i name = some c) (hd : s₁.tree.child? j name = some d)
    (hrefs : ∀ path, path ∈ member.references ↔ path ∈ member'.references)
    (hbefore : ∀ {p x y}, Joins schedule.edges p name → Joins schedule'.edges p name →
      r₁.tree.child? i p = some x → s₁.tree.child? j p = some y → r.tree.Resembles R s.tree x y) :
    Ready R (some name) member c d r s := by
  obtain ⟨c', hc', -, hget⟩ := h.exists_child (Table.mem_names_of_get? hm)
  obtain ⟨d', hd', -, hget'⟩ := h'.exists_child (Table.mem_names_of_get? hm')
  obtain rfl := Option.some.inj (hc.symm.trans hc')
  obtain rfl := Option.some.inj (hd.symm.trans hd')
  have hbare := (ho.pending hdone hc).trans hget
  have hbare' := (ho'.pending hdone' hd).trans hget'
  refine ⟨⟨ho.advances.grows.linked, ho'.advances.grows.linked⟩,
    ⟨⟨_, hbare, rfl⟩, ⟨_, hbare', rfl⟩⟩, .of_bare hR hbare hbare' rfl ⟨rfl, rfl⟩ ⟨rfl, rfl⟩,
    ⟨fun s hs => ⟨i, ?_⟩, fun s hs => ⟨j, ?_⟩⟩, fun path hpath => ?_⟩
  · exact Option.some.inj hs ▸ (ho.child?_eq name).trans hc
  · exact Option.some.inj hs ▸ (ho'.child?_eq name).trans hd
  · exact h.agreed hR h' hnames hplaced hescaping ho ho' hm hm' hc hd hbefore hpath
      ((hrefs path).1 hpath)

/-- The members in `done` have come to resemble those of a run that has ended in `r₂`, each in as
many steps. -/
structure Follows (R : List String → List String → Prop) (i j : TrackerId) (r₁ r₂ s₁ : Run)
    (pre post : String → Run) (done : List String) (s : Run) : Prop where
  alike : ∀ {name c d}, name ∈ done → r₁.tree.child? i name = some c →
    s₁.tree.child? j name = some d → r₂.tree.Resembles R s.tree c d
  costs : ∀ name ∈ done, (pre name).steps ≤ (post name).steps
  steps : s.steps = s₁.steps + (done.map fun name => (post name).steps - (pre name).steps).sum

/-- One more member follows. -/
theorem Follows.step (h : Follows R i j r₁ r₂ s₁ pre post done s) (ho : Ongoing j s₀ s₁ done s)
    (hc : r₁.tree.child? i name = some c) (hd : s₁.tree.child? j name = some d)
    (hname : name ∉ done) (hpace : InPace R c d (pre name) s (post name) s')
    (hafter : Unmoved (post name).tree r₂.tree c) :
    Follows R i j r₁ r₂ s₁ pre post (done ++ [name]) s' := by
  obtain ⟨n, hpost, hsteps⟩ := hpace.steps
  refine ⟨fun {other x y} hother hx hy => ?_, fun other hother => ?_, ?_⟩
  · rcases List.mem_append.1 hother with hother | hother
    · have hne : other ≠ name := fun he => hname (he ▸ hother)
      exact (h.alike hother hx hy).move (.refl _ _) (ho.unmoved hd hy hne hpace.right)
    · obtain rfl := List.mem_singleton.1 hother
      obtain rfl := Option.some.inj (hc.symm.trans hx)
      obtain rfl := Option.some.inj (hd.symm.trans hy)
      exact hpace.alike.move hafter (.refl _ _)
  · rcases List.mem_append.1 hother with hother | hother
    · exact h.costs other hother
    · rw [List.mem_singleton.1 hother, hpost]
      exact Nat.le_add_right _ _
  · rw [List.map_append, List.sum_append, List.map_singleton, List.sum_singleton, hsteps, h.steps,
      hpost, Nat.add_sub_cancel_left, Nat.add_assoc]

/-- Where the members of an object have come to, in two runs. -/
structure Level (R : List String → List String → Prop) (i j : TrackerId) (r₀ s₀ r₁ s₁ r₂ s₂ : Run) :
    Prop where
  left : Advances i r₀ r₂
  right : Advances j s₀ s₂
  here : r₂.tree.get? i = r₁.tree.get? i ∧ s₂.tree.get? j = s₁.tree.get? j
  alike : ∀ {name c d}, r₁.tree.child? i name = some c → s₁.tree.child? j name = some d →
    r₂.tree.Resembles R s₂.tree c d
  steps : ∃ n, r₂.steps = r₁.steps + n ∧ s₂.steps = s₁.steps + n

/-- Two runs over the members of an object come to the same, whatever the two orders are. -/
theorem Scene.level (hR : Shuffles R) (h : Scene own i members schedule escaping input r₀ r₁)
    (h' : Scene own j members' schedule' escaping' input s₀ s₁)
    (hnames : R (members.map (·.1)) (members'.map (·.1)))
    (hplaced : Placed own i r₀.tree ∧ Placed own j s₀.tree)
    (hescaping : ∀ path ∈ escaping, Agreed own i j r₀.tree s₀.tree path)
    (hmimics : ∀ {name member member'}, Table.get? members name = some member →
      Table.get? members' name = some member' → Mimics R (some name) member member' ∧
        ∀ path, path ∈ member.references ↔ path ∈ member'.references) :
    Level R i j r₀ s₀ r₁ s₁ (runSchedule schedule (memberStages members) i r₁)
      (runSchedule schedule' (memberStages members') j s₁) := by
  have hsame : ∀ s, s ∈ members.map (·.1) ↔ s ∈ members'.map (·.1) := fun s => hR.mem_iff hnames
  obtain ⟨keys, hcached⟩ := h.arranges.kept
  obtain ⟨keys', hcached'⟩ := h'.arranges.kept
  obtain ⟨hserves', -⟩ := runSchedule_cached h'.arranges hcached'
  have hperm : keys.Perm keys' := by
    have horder := (h.arranges.sound.cached keys hcached).perm
    have horder' := (h'.arranges.sound.cached keys' hcached').perm
    rw [h.arranges.names_members] at horder
    rw [h'.arranges.names_members] at horder'
    exact horder.trans ((hR.perm hnames).trans horder'.symm)
  obtain ⟨pre, post, hongoing, hhistory⟩ := h.exists_history hcached
  generalize runSchedule schedule (memberStages members) i r₁ = r₂ at hongoing hhistory ⊢
  obtain ⟨t, hattached, hsize, -⟩ := h'.attached
  -- the second run comes to a member, and finds what the first one found
  have hstep : ∀ {done : List String} {name : String} {rest : List String} {member' : Entity}
      {d : TrackerId} {s : Run}, keys' = done ++ name :: rest →
      Table.get? members' name = some member' → s₁.tree.child? j name = some d →
      Ongoing j s₀ s₁ done s → Follows R i j r₁ r₂ s₁ pre post done s →
      Follows R i j r₁ r₂ s₁ pre post (done ++ [name]) (member'.process d s) := by
    intro done name rest member' d s hkeys' hm' hd ho' hfollows
    obtain ⟨hname', hjoins'⟩ := hserves'.next hkeys'
    obtain ⟨member, hm⟩ := exists_member (fun s => (hsame s).symm) hm'
    have hname : name ∈ keys := hperm.mem_iff.2 (by simp [hkeys'])
    obtain ⟨c, hc, -⟩ := h.exists_child (Table.mem_names_of_get? hm)
    obtain ⟨hpost, hturn⟩ := hhistory.turn hname hm hc
    obtain ⟨earlier, ho, hearlier⟩ := hturn.reached
    obtain ⟨hmimics, hrefs⟩ := hmimics hm hm'
    have hready : Ready R (some name) member c d (pre name) s :=
      h.ready hR h' hsame hplaced hescaping ho ho' hearlier hname' hm hm' hc hd hrefs
        fun {p x y} hj hj' hx hy =>
          (hfollows.alike (hjoins' p hj') hx hy).move (hturn.before hj hx).2.symm (.refl _ _)
    have hpace := hmimics c d (pre name) s hready
    rw [← hpost] at hpace
    exact hfollows.step ho' hc hd hname' hpace (hpost ▸ hturn.after)
  obtain ⟨hongoing', hfollows⟩ := runSchedule_along
    (Q := fun done s => Follows R i j r₁ r₂ s₁ pre post done s) h'.arranges hcached' hattached hsize
    h'.start (fun m hm => process_advances (h'.arranged m hm)) hstep
    ⟨fun hname => absurd hname List.not_mem_nil, List.forall_mem_nil _, rfl⟩
  refine ⟨hongoing.advances, hongoing'.advances, ⟨hongoing.here, hongoing'.here⟩,
    fun {name c d} hc hd => ?_, _, hhistory.steps fun name hname =>
      hfollows.costs name (hperm.mem_iff.1 hname), ?_⟩
  · by_cases hname : name ∈ members'.map (·.1)
    · exact hfollows.alike ((hserves'.mem name).2 hname) hc hd
    · rw [h'.child?_eq_none hname] at hd
      cases hd
  · rw [hfollows.steps, (hperm.map _).sum_eq]

end

end Run

end Intake
