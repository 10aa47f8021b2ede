import Intake.Proofs.Schedule.Failure
/-!
# Members in another order

Where a path leads depends on which members there are, and not on their order.  So do whether they
can be scheduled and which paths escape:

    Includes members members' → Arranges own members schedule escaping →
      ∃ schedule' escaping', ofMembers own members' = .ok (schedule', escaping')
-/

namespace Intake

namespace Schedule

open Relation

theorem course_congr {names names' : List String} (h : ∀ s, s ∈ names ↔ s ∈ names')
    (own : Option String) (name : String) (path : Path) :
    course own names name path = course own names' name path := by
  unfold course
  simp only [h]

variable {own : Option String} {members members' : List (String × List Path)}
  {schedule : Schedule String} {escaping : List Path}

/-- What escapes is what the members look up outside of the object. -/
theorem Arranges.mem_escaping_iff (h : Arranges own members schedule escaping) {path : Path} :
    path ∈ escaping ↔ ∃ m ∈ members, path ∈ m.2 ∧
      course own (members.map (·.1)) m.1 path = .escapes := by
  have howed : Ends (Owed own members) (Refused own members) (ofMembers own members) :=
    ofMembers_ends (h.names ▸ h.sound.nodup)
  rw [h.made] at howed
  refine ⟨howed.escaping, ?_⟩
  rintro ⟨m, hm, hpath, hcourse⟩
  have hkept := h.courses m hm path hpath
  rwa [hcourse] at hkept

/-- Members that are scheduled are not stuck. -/
theorem Arranges.not_stuck (h : Arranges own members schedule escaping) : ¬ Stuck own members := by
  rintro (⟨m, hm, path, hpath, first, hcourse⟩ | ⟨name, hcycle⟩)
  · have hkept := h.courses m hm path hpath
    rwa [hcourse] at hkept
  · refine h.sound.acyclic name (TransGen.mono ?_ _ _ hcycle)
    rintro p c ⟨m, hm, rfl, path, hpath, hcourse⟩
    have hkept := h.courses m hm path hpath
    rwa [hcourse] at hkept

/-- The members `members'` have the same names as others, and look up nothing but what those do. -/
structure Includes (members members' : List (String × List Path)) : Prop where
  names : ∀ s, s ∈ members.map (·.1) ↔ s ∈ members'.map (·.1)
  paths : ∀ m' ∈ members', ∃ m ∈ members, m.1 = m'.1 ∧ ∀ path ∈ m'.2, path ∈ m.2

theorem Includes.stuck (h : Includes members members') (hs : Stuck own members') :
    Stuck own members := by
  rcases hs with ⟨m', hm', path, hpath, first, hcourse⟩ | ⟨name, hcycle⟩
  · obtain ⟨m, hm, hname, hpaths⟩ := h.paths m' hm'
    refine .inl ⟨m, hm, path, hpaths path hpath, first, ?_⟩
    rw [hname, course_congr h.names, hcourse]
  · refine .inr ⟨name, TransGen.mono ?_ _ _ hcycle⟩
    rintro p c ⟨m', hm', rfl, path, hpath, hcourse⟩
    obtain ⟨m, hm, hname, hpaths⟩ := h.paths m' hm'
    exact ⟨m, hm, hname, path, hpaths path hpath, (course_congr h.names _ _ _).trans hcourse⟩

/-- What escapes from fewer paths escapes. -/
theorem Includes.escaping_subset (h : Includes members members') {schedule' : Schedule String}
    {escaping' : List Path} (ha : Arranges own members schedule escaping)
    (ha' : Arranges own members' schedule' escaping') : ∀ path ∈ escaping', path ∈ escaping := by
  intro path hpath
  obtain ⟨m', hm', hpath, hcourse⟩ := ha'.mem_escaping_iff.1 hpath
  obtain ⟨m, hm, hname, hpaths⟩ := h.paths m' hm'
  refine ha.mem_escaping_iff.2 ⟨m, hm, hpaths path hpath, ?_⟩
  rw [hname, course_congr h.names, hcourse]

/-- Members that look up nothing but what others do can be scheduled if those can. -/
theorem Includes.exists_ofMembers (h : Includes members members')
    (ha : Arranges own members schedule escaping) (hnodup : (members'.map (·.1)).Nodup) :
    ∃ schedule' escaping', ofMembers own members' = .ok (schedule', escaping') := by
  have hends : Ends (Owed own members') (Refused own members') (ofMembers own members') :=
    ofMembers_ends hnodup
  cases hmade : ofMembers own members' with
  | ok out => exact ⟨out.1, out.2, rfl⟩
  | error e =>
    rw [hmade] at hends
    exact absurd (h.stuck hends.2) ha.not_stuck

/-- Where nothing is looked up, the own name of the object does not matter. -/
theorem ofMembers_silent (h : ∀ m ∈ members, m.2 = []) (own own' : Option String) :
    ofMembers own members = ofMembers own' members := by
  have hfold : ∀ (names : List String) (s : Schedule String × List Path),
      members.foldlM (fun s m => m.2.foldlM (linkPath own names m.1) s) s =
        members.foldlM (fun s m => m.2.foldlM (linkPath own' names m.1) s) s := by
    intro names s
    induction members generalizing s with
    | nil => rfl
    | cons m rest ih =>
      rw [List.foldlM_cons, List.foldlM_cons, h m List.mem_cons_self]
      exact ih (fun m hm => h m (List.mem_cons_of_mem _ hm)) s
  unfold ofMembers
  simp only [hfold]

end Schedule

end Intake
