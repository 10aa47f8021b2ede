import Intake.Proofs.Schedule.Members
/-!
# When members cannot be scheduled

`Asks own members p c` says that a path of the member `c` is to be produced by the member `p`.
Members with different names can be scheduled unless a path leads to the object around them, or
they ask for one another in a circle:

    ¬ Stuck own members → … ofMembers own members = .ok …

What comes out holds nothing that no member has asked for (`Owed`), and where none has asked for
another they run as they are declared (`Arranges.declared`).
-/

namespace Intake

namespace Schedule

open Relation

/-- A path of the member `c` is produced by the member `p`. -/
def Asks (own : Option String) (members : List (String × List Path)) (p c : String) : Prop :=
  ∃ m ∈ members, m.1 = c ∧ ∃ path ∈ m.2, course own (members.map (·.1)) c path = .after p

/-- A path of a member leads to the object itself, or members ask for one another in a circle. -/
def Stuck (own : Option String) (members : List (String × List Path)) : Prop :=
  (∃ m ∈ members, ∃ path ∈ m.2, ∃ first,
    course own (members.map (·.1)) m.1 path = .enclosing first) ∨
  ∃ name, TransGen (Asks own members) name name

/-- The error of members that cannot be scheduled. -/
def Refused (own : Option String) (members : List (String × List Path)) (e : ScheduleError) :
    Prop :=
  (∃ p c, e = .cycle p c) ∧ Stuck own members

/-- The schedule of the members and the escaping paths hold nothing that they do not ask for. -/
structure Owed (own : Option String) (members : List (String × List Path))
    (state : Schedule String × List Path) : Prop where
  sound : state.1.Sound
  names : Table.names state.1.nodes = members.map (·.1)
  edges : ∀ {p c}, Joins state.1.edges p c → Asks own members p c
  escaping : ∀ {path}, path ∈ state.2 → ∃ m ∈ members, path ∈ m.2 ∧
    course own (members.map (·.1)) m.1 path = .escapes

/-- The courses of a path: it stays in the member, asks for a sibling, comes back in through the
own name of the object, or escapes. -/
theorem course_cases (own : Option String) (names : List String) (name : String) {path : Path}
    {first : String} {rest : List String} (h : path.segments = first :: rest) :
    (first = name ∧ course own names name path = .free) ∨
    (first ≠ name ∧ first ∈ names ∧ course own names name path = .after first) ∨
    (first ∉ names ∧ own = some first ∧ rest = [] ∧
      course own names name path = .enclosing first) ∨
    (first ∉ names ∧ own = some first ∧ ∃ second rest', rest = second :: rest' ∧
      (second ∈ names ∧ course own names name path = .after second ∨
        second ∉ names ∧ course own names name path = .free)) ∨
    (first ≠ name ∧ first ∉ names ∧ own ≠ some first ∧
      course own names name path = .escapes) := by
  by_cases hname : first = name
  · exact .inl ⟨hname, by simp [course, h, hname]⟩
  by_cases hmem : first ∈ names
  · exact .inr (.inl ⟨hname, hmem, by simp [course, h, hname, hmem]⟩)
  by_cases hown : own = some first
  · refine .inr (.inr ?_)
    cases rest with
    | nil => exact .inl ⟨hmem, hown, rfl, by simp [course, h, hname, hmem, hown]⟩
    | cons second rest' =>
      refine .inr (.inl ⟨hmem, hown, second, rest', rfl, ?_⟩)
      by_cases hsecond : second ∈ names
      · exact .inl ⟨hsecond, by simp [course, h, hname, hmem, hown, hsecond]⟩
      · exact .inr ⟨hsecond, by simp [course, h, hname, hmem, hown, hsecond]⟩
  · exact .inr (.inr (.inr (.inr ⟨hname, hmem, hown, by simp [course, h, hname, hmem, hown]⟩)))

/-- Who produces a path is a member. -/
theorem mem_of_course_after {own : Option String} {names : List String} {name p : String}
    {path : Path} (h : course own names name path = .after p) : p ∈ names := by
  cases hs : path.segments with
  | nil =>
    unfold course at h
    rw [hs] at h
    cases h
  | cons first rest =>
    rcases course_cases own names name hs with ⟨-, hc⟩ | ⟨-, hmem, hc⟩ | ⟨-, -, -, hc⟩ |
        ⟨-, -, _, _, -, ⟨hmem, hc⟩ | ⟨-, hc⟩⟩ | ⟨-, -, -, hc⟩ <;> rw [hc] at h
    · cases h
    · exact Course.after.inj h ▸ hmem
    · cases h
    · exact Course.after.inj h ▸ hmem
    · cases h
    · cases h

/-- In an object without a name of its own, who is asked is who the path begins with. -/
theorem Asks.of_unnamed {members : List (String × List Path)} {p c : String}
    (h : Asks none members p c) :
    ∃ m ∈ members, m.1 = c ∧ ∃ path ∈ m.2, path.first? = some p ∧ p ≠ c ∧
      p ∈ members.map (·.1) := by
  obtain ⟨m, hm, rfl, path, hpath, hc⟩ := h
  refine ⟨m, hm, rfl, path, hpath, ?_⟩
  cases hs : path.segments with
  | nil => simp [course, hs] at hc
  | cons first rest =>
    rcases course_cases none (members.map (·.1)) m.1 hs with ⟨-, he⟩ | ⟨hne, hmem, he⟩ |
        ⟨-, hown, -⟩ | ⟨-, hown, -⟩ | ⟨-, -, -, he⟩
    · exact nomatch he.symm.trans hc
    · obtain rfl := Course.after.inj (he.symm.trans hc)
      exact ⟨by simp [Path.first?, hs], hne, hmem⟩
    · cases hown
    · cases hown
    · exact nomatch he.symm.trans hc

/-- Different names are registered, and nothing is linked. -/
theorem exists_ofNames {names : List String} (h : names.Nodup) :
    ∃ g, ofNames names = .ok g ∧ g.edges = [] ∧ g.cached = none := by
  have hcreate : ∀ (rest : List String) (g : Schedule String),
      (Table.names g.nodes ++ rest).Nodup → g.cached = none →
      ∃ g', rest.foldlM (fun g name => g.create name (some name)) g = .ok g' ∧
        g'.edges = g.edges ∧ g'.cached = none := by
    intro rest
    induction rest with
    | nil => exact fun g _ hcached => ⟨g, rfl, rfl, hcached⟩
    | cons name rest ih =>
      intro g hnodup _
      rcases create_eq g name (some name) with ⟨hname, -⟩ | ⟨-, hnext⟩
      · exact absurd rfl ((List.nodup_append.1 hnodup).2.2 name hname name List.mem_cons_self)
      · rw [List.foldlM_cons, hnext]
        exact ih _ (by simpa [Table.names] using hnodup) rfl
  exact hcreate names empty h rfl

section

variable {own : Option String} {members : List (String × List Path)} {m : String × List Path}
  {path : Path} {s : Schedule String × List Path}

/-- One more path of a member. -/
theorem Owed.linkPath (h : Owed own members s) (hm : m ∈ members) (hpath : path ∈ m.2) :
    Ends (Owed own members) (Refused own members)
      (linkPath own (members.map (·.1)) m.1 s path) := by
  obtain ⟨g, escaping⟩ := s
  unfold Schedule.linkPath
  cases hc : course own (members.map (·.1)) m.1 path with
  | free => exact h
  | enclosing first => exact ⟨⟨_, _, rfl⟩, .inl ⟨m, hm, path, hpath, first, hc⟩⟩
  | escapes =>
    dsimp only
    split
    · exact h
    · refine ⟨h.sound, h.names, h.edges, fun hp => ?_⟩
      rcases List.mem_append.1 hp with hp | hp
      · exact h.escaping hp
      · exact List.mem_singleton.1 hp ▸ ⟨m, hm, hpath, hc⟩
  | after p =>
    have hasks : Asks own members p m.1 := ⟨m, hm, rfl, path, hpath, hc⟩
    have hp : p ∈ Table.names g.nodes := h.names ▸ mem_of_course_after hc
    have hname : m.1 ∈ Table.names g.nodes := h.names ▸ List.mem_map_of_mem hm
    dsimp only
    rcases link_eq g p m.1 with ⟨hp', -⟩ | ⟨-, hname', -⟩ | ⟨-, -, -, he⟩ | ⟨-, -, -, hback, he⟩ |
        ⟨-, -, -, -, he⟩
    · exact absurd hp hp'
    · exact absurd hname hname'
    · exact he ▸ h
    · -- the edges so far lead back, and the members ask for all of them
      have hback : ReflTransGen (Asks own members) m.1 p :=
        ReflTransGen.mono (fun _ _ hj => h.edges hj) _ _ hback
      exact he ▸ ⟨⟨_, _, rfl⟩, .inr ⟨p, .head' hasks hback⟩⟩
    · have hsound := h.sound.link he
      rw [he]
      refine ⟨hsound, h.names, fun {x y} hj => ?_, h.escaping⟩
      rcases List.mem_append.1 hj with hj | hj
      · exact h.edges hj
      · obtain ⟨rfl, rfl⟩ := Prod.mk.inj (List.mem_singleton.1 hj)
        exact hasks

/-- Members are scheduled unless they are stuck. -/
theorem ofMembers_ends (hnames : (members.map (·.1)).Nodup) :
    Ends (Owed own members) (Refused own members) (ofMembers own members) := by
  obtain ⟨nodes, hnodes, hedges, -⟩ := exists_ofNames hnames
  obtain ⟨hsound, hn, -⟩ := ofNames_eq_ok hnodes
  have hstart : Owed own members (nodes, []) := by
    refine ⟨hsound, hn, fun {p c} hj => ?_, by simp⟩
    rw [hedges] at hj
    exact absurd hj List.not_mem_nil
  unfold ofMembers
  dsimp only
  rw [hnodes]
  refine Ends.bind (P := Owed own members) ?_ fun s h => ?_
  · exact .foldlM (fun m hm s hs => .foldlM (fun path hpath s hs => hs.linkPath hm hpath) hs) hstart
  · obtain ⟨keys, he, -⟩ := h.sound.order_eq
    rw [he]
    exact ⟨(h.sound.order he).1, h.names, h.edges, h.escaping⟩

/-! ## The order of declaration -/

/-- Keys that wait for nothing are taken as they come. -/
theorem settle_free (names : List String) :
    settle (names.map fun name => (name, [])) = .ok names := by
  induction names with
  | nil => simp [settle]
  | cons name rest ih =>
    have htake : take name ((name :: rest).map fun name => (name, [])) =
        rest.map fun name => (name, []) := by
      simp [take]
    rw [settle]
    split
    · next key producers hfind =>
      obtain ⟨rfl, rfl⟩ : name = key ∧ [] = producers := by simpa using hfind
      rw [htake, ih]
      rfl
    · next hfind => simp at hfind

/-- Members that ask for no other run in the order of their declaration. -/
theorem Arranges.declared {schedule : Schedule String} {escaping : List Path}
    (h : Arranges own members schedule escaping) (hasks : ∀ p c, ¬ Asks own members p c) :
    schedule.cached = some (members.map (·.1)) := by
  have hnames : (members.map (·.1)).Nodup := h.names ▸ h.sound.nodup
  obtain ⟨nodes, hnodes, hedges, hcached⟩ := exists_ofNames hnames
  obtain ⟨-, hn, -⟩ := ofNames_eq_ok hnodes
  -- no path is linked
  have hlinked : Ends (fun s => s.1 = nodes) (fun _ : ScheduleError => True)
      (members.foldlM (fun s m => m.2.foldlM (Schedule.linkPath own (members.map (·.1)) m.1) s)
        (nodes, [])) := by
    refine .foldlM (fun m hm s hs => .foldlM (fun path hpath s hs => ?_) hs) rfl
    unfold Schedule.linkPath
    cases hc : course own (members.map (·.1)) m.1 path with
    | free => exact hs
    | enclosing first => trivial
    | after p => exact absurd ⟨m, hm, rfl, path, hpath, hc⟩ (hasks p m.1)
    | escapes =>
      dsimp only
      split
      · exact hs
      · exact hs
  have hmade := h.made
  unfold ofMembers at hmade
  simp only [bind_eq_ok] at hmade
  obtain ⟨nodes', hnodes', ⟨linked, out⟩, hfold, ⟨keys, ordered⟩, horder, hout⟩ := hmade
  obtain rfl : nodes = nodes' := Except.ok.inj (hnodes.symm.trans hnodes')
  rw [hfold] at hlinked
  obtain rfl : linked = nodes := hlinked
  obtain ⟨rfl, -⟩ := Prod.mk.inj (Except.ok.inj hout)
  have hwaiting : linked.waiting = (members.map (·.1)).map fun name => (name, []) := by
    simp [waiting, hedges, hn]
  rw [order, hcached] at horder
  simp only [hwaiting, settle_free] at horder
  obtain ⟨-, rfl⟩ := Prod.mk.inj (Except.ok.inj horder)
  rfl

end

end Schedule

end Intake
