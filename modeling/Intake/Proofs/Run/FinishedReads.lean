import Mathlib
import Intake.Proofs.Run.Settled
/-!
# Look-ups read finished values

The main result, for every chain that compiles and every input:

    (e.run input).trace = later ++ .lookedUp id path (some found) value :: earlier →
      found ≠ id → ¬ EntersList e (e.run input).tree id path found →
      value = (e.run input).tree.value? found ∧ ...

Compilation decides from names alone what a member waits for, and the run looks for the first
segment outward from the member.  The two agree at every level, and `Scoped` says so of one level:
whatever path an entity may look up `Lands` where it should.  An object hands this on to its
members (`Scoped.member`), since a path that it does not order itself is among its own; a list
hands it on to its items (`Scoped.item`), and what enters at the list or comes back to it is the
exception in the main result.
-/

namespace Intake

namespace Run

open Entity

/-- How an entity stands among those around it: it is the entity at its address, its own name is
that of its tracker unless it is an item, and its look-ups land. -/
structure Scoped (root : Entity) (own : Option String) (e : Entity) (F : TrackerId → Prop)
    (id : TrackerId) (t : TrackerTree) : Prop where
  entity : root.at? (t.pathOf id) = some e
  named : ∀ s, own = some s → ∃ p, t.child? p s = some id
  unnamed : own = none → ∀ p s, t.child? p s = some id → Lists root t p
  lands : ∀ path ∈ e.references, Lands root F t id path

section Outer

variable {root : Entity} {F P : TrackerId → Prop} {id c : TrackerId} {r₀ r r' : Run}

/-- Work at a tracker does not change where the look-ups for it land. -/
theorem Lands.advance {path : Path} (h : Lands root F r.tree id path) (hl : r.tree.Linked)
    (hid : id < r.tree.size) (ha : Advances id r r') : Lands root F r'.tree id path := by
  intro first rest entry c hsegments hentry hc
  rw [ha.grows.entry?_eq hl hid] at hentry
  have hentry_lt := hl.enclosing_lt (TrackerTree.entry?_mem hentry).1
  have hentry_size := Nat.lt_trans hentry_lt hid
  rw [ha.grows.child?_eq hentry_size (Nat.ne_of_lt hentry_lt)] at hc
  have hc_lt := hl.child_lt_size hc
  rw [ha.grows.enclosing_eq hl hid]
  rcases h first rest entry c hsegments hentry hc with h | ⟨hmem, h⟩ | h | h | ⟨s, rest', hrest, h⟩
  · exact .inl (h.advance ha hl hentry_size)
  · exact .inr (.inl ⟨hmem, h.advance ha hl hc_lt⟩)
  · exact .inr (.inr (.inl h))
  · exact .inr (.inr (.inr (.inl h)))
  · by_cases hcid : c = id
    · exact .inr (.inr (.inl hcid))
    · refine .inr (.inr (.inr (.inr ⟨s, rest', hrest, fun d hd => h d ?_⟩)))
      rwa [ha.grows.child?_eq hc_lt hcid] at hd

/-- A look-up for a child that enters outside of its parent leads where one for the parent does. -/
theorem Lands.inward {G : TrackerId → Prop} {t : TrackerTree} {path : Path} {first : String}
    {rest : List String} {entry c' : TrackerId} (h : Lands root F t id path)
    (hG : ∀ x, F x → G x) (henclosing : t.enclosing c = id :: t.enclosing id)
    (hsegments : path.segments = first :: rest) (hentry : t.entry? id first = some entry)
    (hc' : t.child? entry first = some c') (hne : c' ≠ id) :
    Lists root t entry ∨ c' ∈ t.enclosing c ∧ Lists root t c' ∨ c' = c ∨ G c' ∨
      ∃ second rest', rest = second :: rest' ∧ ∀ d, t.child? c' second = some d → G d := by
  rw [henclosing]
  rcases h first rest entry c' hsegments hentry hc' with h | ⟨hmem, h⟩ | h | h |
      ⟨s, rest', hrest, h⟩
  · exact .inl h
  · exact .inr (.inl ⟨List.mem_cons_of_mem _ hmem, h⟩)
  · exact absurd h hne
  · exact .inr (.inr (.inr (.inl (hG c' h))))
  · exact .inr (.inr (.inr (.inr ⟨s, rest', hrest, fun d hd => hG d (h d hd)⟩)))

/-- The place where a pending child is processed. -/
theorem Progress.site (h : Progress root F id r₀ P r) (hs : Site F id r₀)
    (hP : ∀ x, P x → x < r.tree.size → ∃ s, r.tree.child? id s = some x) (hc : P c)
    (hold : r₀.tree.size ≤ c) (hlt : c < r.tree.size) (bare : ∀ s, r.tree.child? c s = none) :
    Site (Done F r₀ r P) c r where
  linked := h.advances.grows.linked
  lt := hlt
  bare := bare
  fresh := by
    rintro (hF | ⟨-, -, hn⟩)
    · exact Nat.not_lt.2 hold (hs.bound hF)
    · exact hn hc
  bound := by
    rintro x (hF | ⟨-, hx, -⟩)
    · exact h.advances.lt (hs.bound hF)
    · exact hx
  closed := by
    intro x d s hx hd
    have hl := h.advances.grows.linked
    rcases hx with hF | ⟨hle, -, -⟩
    · have hne : x ≠ id := fun he => hs.fresh (he ▸ hF)
      rw [h.advances.grows.child?_eq (hs.bound hF) hne] at hd
      exact .inl (hs.closed hF hd)
    · have hd_lt := hl.child_lt_size hd
      refine .inr ⟨Nat.le_trans hle (Nat.le_of_lt (hl.child_lt hd)), hd_lt, fun hPd => ?_⟩
      obtain ⟨s', hs'⟩ := hP d hPd hd_lt
      obtain ⟨rfl, -⟩ := hl.child?_inj hd hs'
      exact Nat.not_lt.2 hle hs.lt
  begun := by
    rintro x (hF | ⟨hle, hx, hn⟩)
    · exact h.advances.began_mem (hs.begun hF)
    · exact h.begun hle hx hn

/-- What is at the address of a child. -/
theorem Scoped.entity_child {own : Option String} {e inner : Entity} {s : String}
    (h : Scoped root own e F id r₀.tree) (hs : Site F id r₀) (ha : Advances id r₀ r)
    (hc : r.tree.child? id s = some c) (he : e.child? s = some inner) :
    root.at? (r.tree.pathOf c) = some inner := by
  rw [ha.grows.linked.pathOf_child hc, ha.grows.pathOf_eq hs.linked hs.lt,
    at?_append h.entity, he]

/-- The items of a list look up what the list does. -/
theorem Scoped.item {own : Option String} {n : Nat} {source : Chain} {resolver : Option Entity}
    {pipeline : Pipeline} {items : Entity} {s : String}
    (h : Scoped root own (.mk n source resolver (.behaviour pipeline (.array (some items)))) F id
      r₀.tree)
    (hs : Site F id r₀) (hp : Progress root F id r₀ P r) (hc : r.tree.child? id s = some c) :
    Scoped root none items (Done F r₀ r P) c r.tree := by
  have hl := hp.advances.grows.linked
  have hlists : Lists root r.tree id :=
    Lists.advance ⟨_, h.entity, rfl⟩ hp.advances hs.linked hs.lt
  refine ⟨h.entity_child hs hp.advances hc rfl, by simp, ?_, ?_⟩
  · intro _ p s' hp'
    obtain ⟨rfl, -⟩ := hl.child?_inj hp' hc
    exact hlists
  · intro path hpath first rest entry c' hsegments hentry hc'
    rw [hl.entry?_child hc] at hentry
    have hmem : path ∈ references
        (.mk n source resolver (.behaviour pipeline (.array (some items)))) := by
      simp [references, bodyReferences, hookReferences, mem_distinct, hpath]
    have hlands := (h.lands path hmem).advance hs.linked hs.lt hp.advances
    split at hentry
    · obtain rfl := Option.some.inj hentry
      exact .inl hlists
    · by_cases hself : c' = id
      · subst hself
        exact .inr (.inl ⟨by rw [hl.enclosing_child hc]; exact List.mem_cons_self, hlists⟩)
      · exact hlands.inward (fun _ => .inl) (hl.enclosing_child hc) hsegments hentry hc' hself

/-- A child that is not pending any more is finished. -/
theorem Progress.done_child {s : String} {d : TrackerId} (h : Progress root F id r₀ P r)
    (hs : Site F id r₀) (hd : r.tree.child? id s = some d) (hn : ¬ P d) : Done F r₀ r P d := by
  refine .inr ⟨?_, h.advances.grows.linked.child_lt_size hd, hn⟩
  rcases h.advances.grows.child?_new hs.lt hd with hold | hnew
  · rw [hs.bare] at hold
    cases hold
  · exact hnew

section Object

variable {own : Option String} {e : Entity} {path : Path} {first name : String}
  {rest : List String} {entry c' : TrackerId}

/-- Who looks for the object's own name from inside comes to the object. -/
theorem Scoped.reenters (h : Scoped root own e F id r₀.tree) (hs : Site F id r₀)
    (ha : Advances id r₀ r) (hown : own = some first)
    (hentry : r.tree.entry? id first = some entry) (hc' : r.tree.child? entry first = some c') :
    c' = id := by
  obtain ⟨p, hp⟩ := h.named first hown
  have hlt := hs.linked.child_lt hp
  rw [← ha.grows.child?_eq (Nat.lt_trans hlt hs.lt) (Nat.ne_of_lt hlt)] at hp
  rw [ha.grows.linked.entry?_child hp, hp] at hentry
  obtain rfl : p = entry := Option.some.inj hentry
  exact Option.some.inj (hc'.symm.trans hp)

/-- What the object looks up under another name than its own lands for its members as well. -/
theorem Scoped.lands_inward (h : Scoped root own e F id r₀.tree) (hs : Site F id r₀)
    (hp : Progress root F id r₀ P r) (hc : r.tree.child? id name = some c)
    (hpath : path ∈ e.references) (hown : own ≠ some first)
    (hsegments : path.segments = first :: rest) (hentry : r.tree.entry? id first = some entry)
    (hc' : r.tree.child? entry first = some c') :
    Lists root r.tree entry ∨ c' ∈ r.tree.enclosing c ∧ Lists root r.tree c' ∨ c' = c ∨
      Done F r₀ r P c' ∨ ∃ second rest', rest = second :: rest' ∧
        ∀ d, r.tree.child? c' second = some d → Done F r₀ r P d := by
  have hl := hp.advances.grows.linked
  have hlands := (h.lands path hpath).advance hs.linked hs.lt hp.advances
  by_cases hself : c' = id
  · -- an item has no name of its own, so this is the list around it
    subst hself
    have hlt := hl.child_lt hc'
    rw [hp.advances.grows.child?_eq (Nat.lt_trans hlt hs.lt) (Nat.ne_of_lt hlt)] at hc'
    cases hown' : own with
    | none =>
      have hlists := h.unnamed hown' entry first hc'
      exact .inl (hlists.advance hp.advances hs.linked (Nat.lt_trans hlt hs.lt))
    | some s =>
      obtain ⟨p, hp'⟩ := h.named s hown'
      obtain ⟨-, rfl⟩ := hs.linked.child?_inj hp' hc'
      exact absurd hown' hown
  · exact hlands.inward (fun _ => .inl) (hl.enclosing_child hc) hsegments hentry hc' hself

end Object

/-- A member looks up what has run before it, what is its own, or what the object does. -/
theorem Scoped.member {own : Option String} {n : Nat} {source : Chain}
    {resolver : Option Entity} {pipeline : Pipeline} {members : List (String × Entity)}
    {schedule : Schedule String} {policy : UnknownKeys} {escaping : List Path} {name : String}
    {e : Entity}
    (h : Scoped root own (.mk n source resolver
      (.behaviour pipeline (.object members schedule policy escaping))) F id r₀.tree)
    (hs : Site F id r₀)
    (ha : schedule.Arranges own (members.map fun m => (m.1, m.2.references)) escaping)
    (hp : Progress root F id r₀ P r) (hc : r.tree.child? id name = some c)
    (he : Table.get? members name = some e)
    (hnames : ∀ other ∈ members.map (·.1), ∃ d, r.tree.child? id other = some d)
    (hready : ∀ other d, r.tree.child? id other = some d → P d → other ∈ members.map (·.1) ∧
      ¬ Schedule.Joins schedule.edges other name) :
    Scoped root (some name) e (Done F r₀ r P) c r.tree := by
  refine ⟨h.entity_child hs hp.advances hc he, ?_, by simp, ?_⟩
  · intro s hs'
    exact ⟨id, Option.some.inj hs' ▸ hc⟩
  · intro path hpath first rest entry c' hsegments hentry hc'
    -- a child of the object that is waited for is finished
    have hdone : ∀ {other d}, r.tree.child? id other = some d →
        (other ∈ members.map (·.1) → Schedule.Joins schedule.edges other name) →
        Done F r₀ r P d := fun {other d} hd hj =>
      hp.done_child hs hd fun hPd => (hready other d hd hPd).2 (hj (hready other d hd hPd).1)
    have hleads := ha.leads he hpath hsegments
    rw [hp.advances.grows.linked.entry?_child hc] at hentry
    split at hentry
    · obtain rfl := Option.some.inj hentry
      rcases hleads with rfl | ⟨-, hj⟩ | ⟨hmem, -⟩ | ⟨hmem, -⟩
      · exact .inr (.inr (.inl (Option.some.inj (hc'.symm.trans hc))))
      · exact .inr (.inr (.inr (.inl (hdone hc' fun _ => hj))))
      · exact .inr (.inr (.inr (.inl (hdone hc' fun h => absurd h hmem))))
      · exact .inr (.inr (.inr (.inl (hdone hc' fun h => absurd h hmem))))
    · next hnone =>
      have hfirst : first ∉ members.map (·.1) := by
        intro hmem
        obtain ⟨d, hd⟩ := hnames first hmem
        simp [hd] at hnone
      rcases hleads with rfl | ⟨hmem, -⟩ | ⟨-, hown, second, rest', hrest, hj⟩ | ⟨-, hown, hesc⟩
      · exact absurd (Table.mem_names_of_get? he) hfirst
      · exact absurd hmem hfirst
      · obtain rfl := h.reenters hs hp.advances hown hentry hc'
        exact .inr (.inr (.inr (.inr ⟨second, rest', hrest, fun d hd => hdone hd hj⟩)))
      · have hmem : path ∈ references (.mk n source resolver
            (.behaviour pipeline (.object members schedule policy escaping))) := by
          simp [references, bodyReferences, hookReferences, mem_distinct, hesc]
        exact h.lands_inward hs hp hc hmem hown hsegments hentry hc'

end Outer

/-! ## Processing -/

/-- All that is new after the entity has processed a tracker is finished, and what it has read
was final. -/
def Finishes (root : Entity) (own : Option String) (e : Entity) : Prop :=
  ∀ F id r, Site F id r → Scoped root own e F id r.tree →
    Progress root F id r (fun _ => False) (e.process id r)

section Loops

variable {root : Entity} {F : TrackerId → Prop} {id : TrackerId} {r₀ r₁ r : Run}

/-- One item of a list. -/
theorem Progress.item {own : Option String} {n : Nat} {source : Chain} {resolver : Option Entity}
    {pipeline : Pipeline} {items : Entity} (hi : Arranged none items)
    (ih : Finishes root none items) (hs : Site F id r₀)
    (h : Scoped root own (.mk n source resolver (.behaviour pipeline (.array (some items)))) F id
      r₀.tree) (i : Nat) (v : Value) (hr : Progress root F id r₀ (fun _ => False) r) :
    Progress root F id r₀ (fun _ => False)
      (items.process r.tree.size
        { r with tree := (r.tree.attach id (toString i) (some v)).2 }) := by
  have hid := hr.advances.lt hs.lt
  have hnew := TrackerTree.get?_attach_size hid (toString i) (some v)
  have hc := TrackerTree.child?_attach hid (toString i) (some v) (toString i)
  generalize hr' : { r with tree := (r.tree.attach id (toString i) (some v)).2 } = r'
  have htree : r'.tree = (r.tree.attach id (toString i) (some v)).2 := by rw [← hr']
  have hsize : r'.tree.size = r.tree.size + 1 := by rw [htree, TrackerTree.size_attach]
  rw [← htree] at hnew hc
  rw [if_pos rfl] at hc
  have hgrows : TrackerTree.Grows id r.tree r'.tree :=
    htree ▸ .attach hr.advances.grows.linked hid _ _
  have hprogress : Progress root F id r₀ (fun x => x = r.tree.size) r' := by
    refine hr.attach hs hgrows (by rw [← hr']) fun x hx => ?_
    rw [hsize] at hx
    exact ⟨fun he => he ▸ Nat.le_refl _, fun hle => Nat.le_antisymm (Nat.le_of_lt_succ hx) hle⟩
  have hlt : r.tree.size < r'.tree.size := by
    rw [hsize]
    exact Nat.lt_succ_self _
  have hsite : Site _ r.tree.size r' :=
    hprogress.site hs (fun x hx _ => ⟨toString i, hx ▸ hc⟩) rfl hr.advances.grows.size hlt
      fun s => by simp [TrackerTree.child?, hnew, Tracker.child?, Table.get?_nil]
  have hdone := hprogress.child hs rfl hr.advances.grows.size (fun x hx => hx ▸ hlt)
    (ih _ _ _ hsite (h.item hs hprogress hc)) (process_began hi hsite.linked hlt)
  exact hdone.congr fun x => by simp

/-- One member of an object. -/
theorem Progress.member {own : Option String} {n : Nat} {source : Chain}
    {resolver : Option Entity} {pipeline : Pipeline} {members : List (String × Entity)}
    {schedule : Schedule String} {policy : UnknownKeys} {escaping : List Path} {name : String}
    {e : Entity} {done : List String} {c : TrackerId} {t : TrackerTree}
    {input : List (String × Value)}
    (ha : schedule.Arranges own (members.map fun m => (m.1, m.2.references)) escaping)
    (harranged : Arranged (some name) e) (ih : Finishes root (some name) e) (hs : Site F id r₀)
    (h : Scoped root own (.mk n source resolver
      (.behaviour pipeline (.object members schedule policy escaping))) F id r₀.tree)
    (hattached : Attached id (members.map (·.1)) input t r₁.tree) (hle : r₀.tree.size ≤ t.size)
    (he : Table.get? members name = some e) (hnext : name ∉ done)
    (hwaits : ∀ p, Schedule.Joins schedule.edges p name → p ∈ done)
    (hc : r₁.tree.child? id name = some c) (ho : Ongoing id r₀ r₁ done r)
    (hr : Progress root F id r₀ (Pending id (members.map (·.1)) r₁ done) r) :
    Progress root F id r₀ (Pending id (members.map (·.1)) r₁ (done ++ [name]))
      (e.process c r) := by
  have hl := ho.advances.grows.linked
  have hname := Table.mem_names_of_get? he
  have hc' := (ho.child?_eq name).trans hc
  obtain ⟨c₂, hc₂, hc_le, hget⟩ := hattached.child name hname
  obtain rfl : c = c₂ := Option.some.inj (hc.symm.trans hc₂)
  have hlt : c < r.tree.size := hl.child_lt_size hc'
  have hold : r₀.tree.size ≤ c := Nat.le_trans hle hc_le
  have hpending : Pending id (members.map (·.1)) r₁ done c := ⟨name, hname, hnext, hc⟩
  have hP : ∀ x, Pending id (members.map (·.1)) r₁ done x → ∃ s, r.tree.child? id s = some x := by
    rintro x ⟨s, -, -, hx⟩
    exact ⟨s, (ho.child?_eq s).trans hx⟩
  have hsite : Site (Done F r₀ r (Pending id (members.map (·.1)) r₁ done)) c r := by
    refine hr.site hs (fun x hx _ => hP x hx) hpending hold hlt fun s => ?_
    rw [TrackerTree.child?, ho.pending hnext hc, hget]
    rfl
  have hscoped := h.member hs ha hr hc' he
    (fun other hother => by
      obtain ⟨d, hd, -⟩ := hattached.child other hother
      exact ⟨d, (ho.child?_eq other).trans hd⟩)
    (fun other d hd hPd => by
      obtain ⟨s, hs', hsd, hd'⟩ := hPd
      obtain ⟨-, rfl⟩ := hl.child?_inj hd ((ho.child?_eq s).trans hd')
      exact ⟨hs', fun hj => hsd (hwaits _ hj)⟩)
  have hstep := hr.child hs hpending hold
    (fun x hx => (hP x hx).elim fun s hx => hl.child_lt_size hx) (ih _ _ _ hsite hscoped)
    (process_began harranged hl hlt)
  exact hstep.congr fun x => pending_append_iff hattached.grows.linked hc

end Loops

theorem progress_start {root : Entity} {paths : List Path} {F : TrackerId → Prop}
    {id : TrackerId} {r : Run} (hs : Site F id r)
    (hp : ∀ path ∈ paths, Lands root F r.tree id path) (entity : Nat) :
    Progress root F id r (fun _ => False) (start entity id r) :=
  (Progress.keeps hs hp).note rfl rfl
    ((Progress.keeps hs hp).touch (Tracker.onContent_claim entity) (.refl hs))

theorem process_finishes {root e : Entity} {own : Option String} (h : Arranged own e) :
    Finishes root own e := by
  induction h with
  | single hr hb =>
    intro F id r hs hsc
    obtain ⟨G, hG, he⟩ := process_local hr
    rw [he]
    refine hG.keeps (Progress.keeps hs hsc.lands) (fun F hF r' hr' => ?_)
      (progress_start hs hsc.lands _)
    exact keeps_of_single hb hF (Progress.keeps hs (by simp)) hr'
  | array hr hi ih =>
    intro F id r hs hsc
    obtain ⟨G, hG, he⟩ := process_local hr
    rw [he]
    have hown := Progress.keeps hs hsc.lands
    refine hG.keeps hown (fun F hF r' hr' => ?_) (progress_start hs hsc.lands _)
    obtain ⟨pipeline, hooks, heq, rfl⟩ := hF
    cases heq
    exact inspectList_keeps (fun f r₂ hf => hown.touch hf)
      (fun _ _ i v r₂ _ hr₂ => Progress.item hi ih hs hsc i v hr₂) hr'
  | @object own n source resolver pipeline members schedule policy escaping hr ha hm ih =>
    intro F id r hs hsc
    obtain ⟨G, hG, he⟩ := process_local hr
    rw [he]
    have hown := Progress.keeps hs hsc.lands
    refine hG.keeps hown (fun F hF r' hr' => ?_) (progress_start hs hsc.lands _)
    obtain ⟨pipeline, hooks, heq, rfl⟩ := hF
    cases heq
    refine inspectObject_keeps (fun f r₂ hf => hown.touch hf)
      (fun r₂ hr₂ => ⟨hr₂.advances.grows.linked, hr₂.advances.lt hs.lt⟩) ?_ hr'
    intro input _ r₂ r₁ hr₂ hattached htrace
    have hnodup : (members.map (·.1)).Nodup := ha.nodup_members
    have hstart : Progress root F id r (Pending id (members.map (·.1)) r₁ []) r₁ :=
      hr₂.attach hs hattached.grows htrace fun x hx => hattached.pending_iff ha.nodup_members hx
    obtain ⟨done, hdone, -, hprogress⟩ := runSchedule_ongoing
      (Q := fun done => Progress root F id r (Pending id (members.map (·.1)) r₁ done)) ha hattached
      hr₂.advances.grows.size hstart.advances
      (fun m hm' {c r} hl hlt => process_advances (hm m hm') hl hlt)
      (fun hnext hwaits he hc hongoing hprogress =>
        Progress.member ha (hm _ (Table.mem_of_get? he)) (ih _ (Table.mem_of_get? he)) hs hsc
          hattached hr₂.advances.grows.size he hnext hwaits hc hongoing hprogress)
      hstart
    refine hprogress.congr fun x => iff_of_false ?_ not_false
    rintro ⟨name, hname, hn, -⟩
    exact hn ((hdone name).2 hname)

/-! ## The main result -/

/-- Whatever compiles to `e` and whatever the input, a look-up that finds another tracker than
the one it is made for, and does not enter through a list around that, reads the value which the
tracker found has in the end: an entity had begun on that tracker before, and nothing happens to
it afterwards. -/
theorem finished_reads {c : Chain} {e : Entity} (h : Mapper.standard.compile c = .ok e)
    (input : Option Value) {later earlier : List Event} {id found : TrackerId} {path : Path}
    {value : Option Value}
    (htrace : (e.run input).trace = later ++ .lookedUp id path (some found) value :: earlier)
    (hne : found ≠ id) (hlist : ¬ EntersList e (e.run input).tree id path found) :
    value = (e.run input).tree.value? found ∧ (∃ k, Event.began k found ∈ earlier) ∧
      ∀ event ∈ later, event.tracker ≠ found := by
  have hlinked : (Run.ofValue input).tree.Linked := TrackerTree.linked_ofValue input
  have hlone : ∀ p s, (Run.ofValue input).tree.child? p s ≠ some TrackerTree.root := by
    intro p s hp
    exact Nat.not_lt_zero p (hlinked.child_lt hp)
  have henclosing : (Run.ofValue input).tree.enclosing TrackerTree.root = [] := by
    refine List.eq_nil_iff_forall_not_mem.2 fun x hx => ?_
    exact Nat.not_lt_zero x (hlinked.enclosing_lt hx)
  have hroot : TrackerTree.root < (Run.ofValue input).tree.size := Nat.one_pos
  have hs : Site (fun _ => False) TrackerTree.root (Run.ofValue input) :=
    ⟨hlinked, hroot, fun _ => rfl, not_false, False.elim, False.elim, False.elim⟩
  have hsc : Scoped e none e (fun _ => False) TrackerTree.root (Run.ofValue input).tree := by
    refine ⟨?_, by simp, fun _ p s hp => absurd hp (hlone p s), ?_⟩
    · rw [TrackerTree.pathOf, hlinked.outward_eq hroot, henclosing]
      rfl
    · intro path _ first rest entry c _ hentry
      simp [TrackerTree.entry?, henclosing] at hentry
  have hfinishes : Finishes e none e := process_finishes (Mapper.compile_arranged h)
  have hrun := hfinishes _ _ _ hs hsc
  obtain ⟨-, -, hread | hread | hread⟩ :=
    hrun.settled later id path found value earlier htrace (Nat.zero_le _)
  · exact absurd hread hne
  · exact absurd hread hlist
  · exact ⟨hread.value, hread.begun, hread.silent⟩

/-- An object whose first member copies its second. -/
def copying : Chain :=
  .ofKind (.object [("copy", .ofPath ⟨["source"]⟩), ("source", .ofKind .any Registry.empty)])
    Registry.empty

/-- What it compiles to. -/
def copier : Entity :=
  .mk 0 copying none (.behaviour ⟨none, []⟩ (.object
    [("copy", .mk 1 (.ofPath ⟨["source"]⟩) none (.reference ⟨["source"]⟩ ⟨none, []⟩)),
      ("source", .mk 2 (.ofKind .any Registry.empty) none (.behaviour ⟨none, []⟩ .pass))]
    ⟨[("copy", some "copy"), ("source", some "source")], [("source", "copy")],
      some ["source", "copy"]⟩ .strip []))

theorem compile_copying : Mapper.standard.compile copying = .ok copier := by cbv

/-- A look-up of the path that finds a tracker. -/
def finds (id : TrackerId) (path : Path) (found : TrackerId) : Event → Bool
  | .lookedUp id' path' found' _ => id' == id && path' == path && found' == some found
  | _ => false

theorem finished_reads_copier :
    Mapper.standard.compile copying = .ok copier ∧
    ∃ later earlier value, (copier.run (some (.object [("source", .bool true)]))).trace =
        later ++ .lookedUp 1 ⟨["source"]⟩ (some 2) value :: earlier ∧
      value = (copier.run (some (.object [("source", .bool true)]))).tree.value? 2 := by
  refine ⟨compile_copying, ?_⟩
  generalize hrun : copier.run (some (.object [("source", .bool true)])) = r
  have hread : r.trace.any (finds 1 ⟨["source"]⟩ 2) = true := by
    rw [← hrun]
    decide +kernel
  have henclosing : r.tree.enclosing 1 = [0] := by
    rw [← hrun]
    decide +kernel
  have hroot : r.tree.pathOf 0 = [] := by
    rw [← hrun]
    decide +kernel
  have hlist : ¬ EntersList copier r.tree 1 ⟨["source"]⟩ 2 := by
    rintro ⟨list, hmem, ⟨a, ha, hisList⟩, -⟩
    obtain rfl : list = 0 := by simpa [henclosing] using hmem
    rw [hroot] at ha
    obtain rfl := Option.some.inj ha
    cases hisList
  obtain ⟨event, hmem, hevent⟩ := List.any_eq_true.1 hread
  obtain ⟨later, earlier, htrace⟩ := List.append_of_mem hmem
  cases event with
  | lookedUp x path found value =>
    simp only [finds, Bool.and_eq_true, beq_iff_eq] at hevent
    obtain ⟨⟨rfl, rfl⟩, rfl⟩ := hevent
    subst hrun
    exact ⟨later, earlier, value, htrace,
      (finished_reads compile_copying _ htrace (by decide) hlist).1⟩
  | _ => cases hevent

end Run

end Intake
