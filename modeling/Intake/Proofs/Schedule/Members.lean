import Intake.Proofs.Fallible
import Intake.Proofs.Schedule.Soundness
/-!
# Schedules of members

What compiling an object leaves behind: `Arranges` says that the schedule has a node for every
member, and that each path of a member has been dealt with as its course asks.

    ofMembers own members = .ok (schedule, escaping) → Arranges own members schedule escaping
-/

namespace Intake

namespace Schedule

/-- What the schedule of an object and its escaping paths owe to the course of a path. -/
def Course.Kept (schedule : Schedule String) (escaping : List Path) (name : String)
    (path : Path) : Course → Prop
  | .free => True
  | .after producer => Joins schedule.edges producer name
  | .enclosing _ => False
  | .escapes => path ∈ escaping

/-- The members of an object, each with the paths it looks up, in a schedule. -/
structure Arranges (own : Option String) (members : List (String × List Path))
    (schedule : Schedule String) (escaping : List Path) : Prop where
  made : ofMembers own members = .ok (schedule, escaping)
  sound : schedule.Sound
  names : Table.names schedule.nodes = members.map (·.1)
  operations : ∀ node ∈ schedule.nodes, node.2 = some node.1
  kept : ∃ keys, schedule.cached = some keys
  courses : ∀ m ∈ members, ∀ path ∈ m.2,
    (course own (members.map (·.1)) m.1 path).Kept schedule escaping m.1 path

/-- The order is kept, so executing the schedule does not fail. -/
theorem Arranges.execute {own : Option String} {members : List (String × List Path)}
    {schedule : Schedule String} {escaping : List Path}
    (h : schedule.Arranges own members escaping) {γ : Type} (apply : String → γ → γ)
    (context : γ) : ∃ out, schedule.execute apply context = .ok out := by
  obtain ⟨keys, hcached⟩ := h.kept
  have horder : schedule.order = .ok (keys, schedule) := by simp [order, hcached]
  exact ⟨_, bind_eq_ok.2 ⟨_, horder, rfl⟩⟩

/-! ## The nodes -/

theorem foldlM_create {names : List String} {g g' : Schedule String} (hg : g.Sound)
    (ho : ∀ node ∈ g.nodes, node.2 = some node.1)
    (h : names.foldlM (fun g name => g.create name (some name)) g = .ok g') :
    g'.Sound ∧ Table.names g'.nodes = Table.names g.nodes ++ names ∧
      ∀ node ∈ g'.nodes, node.2 = some node.1 := by
  induction names generalizing g with
  | nil =>
    obtain rfl := Except.ok.inj h
    exact ⟨hg, by simp, ho⟩
  | cons name rest ih =>
    rw [List.foldlM_cons, bind_eq_ok] at h
    obtain ⟨next, hnext, hrest⟩ := h
    have hsound := hg.create hnext
    rcases create_eq g name (some name) with ⟨-, he⟩ | ⟨-, he⟩ <;> rw [he] at hnext
    · cases hnext
    · obtain rfl := Except.ok.inj hnext
      have hnode : ∀ node ∈ g.nodes ++ [(name, some name)], node.2 = some node.1 := by
        intro node hmem
        rcases List.mem_append.1 hmem with hmem | hmem
        · exact ho node hmem
        · rw [List.mem_singleton.1 hmem]
      obtain ⟨hs, hn, ho'⟩ := ih hsound hnode hrest
      exact ⟨hs, by rw [hn]; simp [Table.names], ho'⟩

theorem ofNames_eq_ok {names : List String} {g : Schedule String} (h : ofNames names = .ok g) :
    g.Sound ∧ Table.names g.nodes = names ∧ ∀ node ∈ g.nodes, node.2 = some node.1 := by
  simpa [Table.names, empty] using foldlM_create .empty (by simp [empty]) h

/-! ## The paths -/

/-- What one more path may do to the schedule and the escaping paths. -/
structure Extends (s s' : Schedule String × List Path) : Prop where
  sound : s.1.Sound → s'.1.Sound
  nodes : s'.1.nodes = s.1.nodes
  edges : ∀ p c, Joins s.1.edges p c → Joins s'.1.edges p c
  escaping : ∀ path ∈ s.2, path ∈ s'.2

theorem Extends.refl (s : Schedule String × List Path) : Extends s s :=
  ⟨id, rfl, fun _ _ h => h, fun _ h => h⟩

theorem Extends.trans {s s' s'' : Schedule String × List Path} (h : Extends s s')
    (h' : Extends s' s'') : Extends s s'' :=
  ⟨h'.sound ∘ h.sound, h'.nodes.trans h.nodes, fun p c hj => h'.edges p c (h.edges p c hj),
    fun path hp => h'.escaping path (h.escaping path hp)⟩

theorem Course.Kept.mono {s s' : Schedule String × List Path} (hs : Extends s s')
    {name : String} {path : Path} {c : Course} (h : c.Kept s.1 s.2 name path) :
    c.Kept s'.1 s'.2 name path := by
  cases c with
  | free => trivial
  | after producer => exact hs.edges _ _ h
  | enclosing _ => exact h.elim
  | escapes => exact hs.escaping _ h

/-- A link that is accepted records its edge and keeps those that are there. -/
theorem link_extends {g g' : Schedule String} {p c : String} (h : g.link p c = .ok g')
    (escaping : List Path) : Extends (g, escaping) (g', escaping) ∧ Joins g'.edges p c := by
  rcases link_eq g p c with ⟨_, he⟩ | ⟨_, _, he⟩ | ⟨_, _, hj, he⟩ | ⟨_, _, _, _, he⟩ |
      ⟨_, _, _, _, he⟩ <;> have h' := he.symm.trans h
  · cases h'
  · cases h'
  · obtain rfl := Except.ok.inj h'
    exact ⟨.refl _, hj⟩
  · cases h'
  · obtain rfl := Except.ok.inj h'
    exact ⟨⟨fun hg => hg.link h, rfl, fun _ _ hj => List.mem_append_left _ hj, fun _ hp => hp⟩,
      List.mem_append_right _ List.mem_cons_self⟩

theorem linkPath_extends {own : Option String} {names : List String} {name : String}
    {s s' : Schedule String × List Path} {path : Path}
    (h : linkPath own names name s path = .ok s') :
    Extends s s' ∧ (course own names name path).Kept s'.1 s'.2 name path := by
  obtain ⟨g, escaping⟩ := s
  unfold linkPath at h
  cases hc : course own names name path with
  | free =>
    rw [hc] at h
    obtain rfl := Except.ok.inj h
    exact ⟨.refl _, trivial⟩
  | after producer =>
    simp only [hc] at h
    cases hl : g.link producer name with
    | error e => simp [hl, Except.map] at h
    | ok g' =>
      simp only [hl, Except.map, Except.ok.injEq] at h
      obtain rfl := h
      exact link_extends hl escaping
  | enclosing first =>
    simp [hc] at h
  | escapes =>
    simp only [hc, Except.ok.injEq] at h
    split at h
    · next hmem => exact h ▸ ⟨.refl _, hmem⟩
    · subst h
      exact ⟨⟨id, rfl, fun _ _ hj => hj, fun _ hp => List.mem_append_left _ hp⟩,
        List.mem_append_right _ List.mem_cons_self⟩

theorem linkPaths_extends {own : Option String} {names : List String} {name : String}
    {paths : List Path} {s s' : Schedule String × List Path}
    (h : paths.foldlM (linkPath own names name) s = .ok s') :
    Extends s s' ∧ ∀ path ∈ paths, (course own names name path).Kept s'.1 s'.2 name path :=
  foldlM_ok Extends (fun path s => (course own names name path).Kept s.1 s.2 name path)
    Extends.refl (fun _ _ _ => Extends.trans) (fun _ _ _ hk hs => hk.mono hs)
    (fun _ _ _ _ hl => linkPath_extends hl) h

theorem ofMembers_arranges {own : Option String} {members : List (String × List Path)}
    {schedule : Schedule String} {escaping : List Path}
    (h : ofMembers own members = .ok (schedule, escaping)) :
    Arranges own members schedule escaping := by
  have made := h
  unfold ofMembers at h
  simp only [bind_eq_ok] at h
  obtain ⟨nodes, hnodes, ⟨linked, out⟩, hlinked, ⟨keys, ordered⟩, horder, hout⟩ := h
  obtain ⟨rfl, rfl⟩ := Prod.mk.inj (Except.ok.inj hout)
  obtain ⟨hsound, hnames, hops⟩ := ofNames_eq_ok hnodes
  have mono : ∀ (m : String × List Path) (s s' : Schedule String × List Path),
      (∀ path ∈ m.2, (course own (members.map (·.1)) m.1 path).Kept s.1 s.2 m.1 path) →
      Extends s s' →
      ∀ path ∈ m.2, (course own (members.map (·.1)) m.1 path).Kept s'.1 s'.2 m.1 path :=
    fun _ _ _ hk hs path hp => (hk path hp).mono hs
  obtain ⟨hext, hkept⟩ := foldlM_ok Extends _ Extends.refl (fun _ _ _ => Extends.trans) mono
    (fun _ _ _ _ hfold => linkPaths_extends hfold) hlinked
  have hs := hext.sound hsound
  obtain ⟨keys', he, _⟩ := hs.order_eq
  rw [he] at horder
  obtain ⟨rfl, rfl⟩ := Prod.mk.inj (Except.ok.inj horder)
  refine ⟨made, (hs.order he).1, ?_, ?_, ⟨_, rfl⟩, fun m hm path hp => ?_⟩
  · exact (congrArg Table.names hext.nodes).trans hnames
  · intro node hnode
    exact hops node (hext.nodes ▸ hnode)
  · exact (hkept m hm path hp).mono ⟨fun h => h, rfl, fun _ _ hj => hj, fun _ hp => hp⟩

theorem lift_eq_ok {α : Type} {r : Except ScheduleError α} {a : α} :
    lift r = .ok a ↔ r = .ok a := by
  cases r with
  | error e => simp [lift, Except.mapError]
  | ok v => simp [lift, Except.mapError]

end Schedule

end Intake
