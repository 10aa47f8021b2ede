import Intake.Catalogue
import Intake.Proofs.Path
import Intake.Proofs.Run.FailingChildren
import Intake.Proofs.Run.Origins
/-!
# What the path of an issue tells

The path of an issue is the address of its tracker with dots between the segments.  Addresses are
one to one with trackers (`pathOf_inj`), but names of members may have dots, and the empty name is
a name:

    m.compile c = .ok e → (e.run input).tree.PathsTell

Issues of different trackers share a path only where one of the names on the way has a dot, or the
root object has a member without a name, whose issues have the path of the root.
-/

namespace Intake

namespace TrackerTree

/-- How far the path of an issue tells on which tracker it was recorded. -/
structure PathsTell (t : TrackerTree) : Prop where
  distinct : ∀ i j, ∀ x ∈ t.located i, ∀ y ∈ t.located j, x.path = y.path →
    i = j ∨ (∃ s ∈ t.pathOf i ++ t.pathOf j, '.' ∈ s.toList) ∨
      t.pathOf i = [] ∧ t.pathOf j = [""] ∨ t.pathOf i = [""] ∧ t.pathOf j = []
  empty : ∀ i, ∀ x ∈ t.located i, x.path = "" ↔ i = root ∨ t.pathOf i = [""]
  named : ∀ i, ∀ x ∈ t.located i, ∀ catalogue : Catalogue, ∃ name,
    catalogue.renderLocated x = name ++ ": " ++ catalogue.render x.issue ∧
      (name = "value" ↔ i = root ∨ t.pathOf i = [""] ∨ t.pathOf i = ["value"])

end TrackerTree

namespace Entity

variable {own : Option String} {e : Entity}

/-- No two trackers of a run have one address. -/
theorem pathOf_inj (h : Arranged own e) (input : Option Value) {i j : TrackerId}
    (hi : i < (e.run input).tree.size) (hj : j < (e.run input).tree.size)
    (hij : (e.run input).tree.pathOf i = (e.run input).tree.pathOf j) : i = j := by
  have hfollow := follow_pathOf h input hi
  rw [hij, follow_pathOf h input hj] at hfollow
  exact (Option.some.inj hfollow).symm

/-- Only the root has the empty address. -/
theorem pathOf_eq_nil_iff (h : Arranged own e) (input : Option Value) {i : TrackerId}
    (hi : i < (e.run input).tree.size) :
    (e.run input).tree.pathOf i = [] ↔ i = TrackerTree.root := by
  obtain ⟨-, -, hroot, -⟩ := run_told h input
  constructor
  · intro hnil
    exact pathOf_inj h input hi (Nat.lt_of_le_of_lt (Nat.zero_le i) hi) (hnil.trans hroot.symm)
  · rintro rfl
    exact hroot

end Entity

/-- The path of an issue in a message. -/
theorem Catalogue.renderLocated_eq (catalogue : Catalogue) (x : LocatedIssue) :
    catalogue.renderLocated x =
      (if x.path = "" then "value" else x.path) ++ ": " ++ catalogue.render x.issue := by
  unfold renderLocated
  simp only [String.isEmpty_iff]

namespace Run

section

variable {own : Option String} {e : Entity} {input : Option Value} {i : TrackerId}
  {x : LocatedIssue}

theorem located_address (hx : x ∈ (e.run input).tree.located i) : i < (e.run input).tree.size ∧
    x.path = Path.dotted ((e.run input).tree.pathOf i) := by
  obtain ⟨k, hk, -, hpath⟩ := TrackerTree.mem_located.1 hx
  exact ⟨TrackerTree.lt_size_of_get? hk, hpath⟩

/-- An empty path tells the root, or a member of the root without a name. -/
theorem located_path_eq_empty (h : Entity.Arranged own e)
    (hx : x ∈ (e.run input).tree.located i) :
    x.path = "" ↔ i = TrackerTree.root ∨ (e.run input).tree.pathOf i = [""] := by
  obtain ⟨hi, hpath⟩ := located_address hx
  rw [hpath, ← Entity.pathOf_eq_nil_iff h input hi]
  constructor
  · intro hempty
    exact (Path.eq_of_dotted_eq (by decide) hempty).symm.imp_left (·.1)
  · rintro (hnil | hempty)
    · rw [hnil]
      rfl
    · rw [hempty]
      rfl

theorem pathsTell (h : Entity.Arranged own e) (input : Option Value) :
    (e.run input).tree.PathsTell := by
  refine ⟨?distinct, fun i x hx => located_path_eq_empty h hx, ?named⟩
  case distinct =>
    intro i j x hx y hy hxy
    obtain ⟨hi, hpath⟩ := located_address hx
    obtain ⟨hj, hpath'⟩ := located_address hy
    by_cases hdot : ∃ s ∈ (e.run input).tree.pathOf i ++ (e.run input).tree.pathOf j, '.' ∈ s.toList
    · exact .inr (.inl hdot)
    · have hplain : ∀ s ∈ (e.run input).tree.pathOf i ++ (e.run input).tree.pathOf j,
          '.' ∉ s.toList := fun s hs hmem => hdot ⟨s, hs, hmem⟩
      rw [List.forall_mem_append] at hplain
      rw [hpath, hpath'] at hxy
      rcases Path.eq_of_dotted_eq_dotted hplain.1 hplain.2 hxy with hsame | hroot
      · exact .inl (Entity.pathOf_inj h input hi hj hsame)
      · exact .inr (.inr hroot)
  case named =>
    intro i x hx catalogue
    have hroot := located_path_eq_empty h hx
    refine ⟨_, catalogue.renderLocated_eq x, ?_⟩
    split
    · next hempty => exact ⟨fun _ => (hroot.1 hempty).imp_right .inl, fun _ => rfl⟩
    · next hempty =>
      rw [(located_address hx).2]
      constructor
      · intro hvalue
        rcases Path.eq_of_dotted_eq (by decide) hvalue with hsegments | hnone
        · exact .inr (.inr hsegments)
        · exact absurd hnone.2 (by decide)
      · rintro (hi | hnameless | hvalue)
        · exact absurd (hroot.2 (.inl hi)) hempty
        · exact absurd (hroot.2 (.inr hnameless)) hempty
        · rw [hvalue]
          rfl

end

/-- Every issue of a run was recorded on a tracker, and its path tells on which one, but for dots
in names and the empty name. -/
theorem issue_paths {c : Chain} {e : Entity} (h : Mapper.standard.compile c = .ok e)
    (input : Option Value) :
    (∀ x ∈ (e.run input).allIssues, ∃ i, x ∈ (e.run input).tree.located i) ∧
      (e.run input).tree.PathsTell := by
  refine ⟨fun x hx => ?_, pathsTell (Mapper.compile_arranged h) input⟩
  obtain ⟨i, -, hi⟩ := List.mem_flatMap.1 hx
  exact ⟨i, hi⟩

theorem issue_paths_scores :
    Mapper.standard.compile scoring = .ok scorer ∧
    (scorer.run scores).allIssues.map (·.path) = ["", "scores", "scores.1"] ∧
    (∀ x ∈ (scorer.run scores).allIssues, ∃ i, x ∈ (scorer.run scores).tree.located i) ∧
    (scorer.run scores).tree.PathsTell :=
  ⟨compile_scoring, by decide +kernel, issue_paths compile_scoring scores⟩

/-! ## Names with dots, and without a character -/

/-- A member with a dot in its name, one that is reached by the same text, and one without a
name. -/
def dotted : Chain :=
  ((scoreSchema.object.field "a" (scoreSchema.object.field "b" scoreSchema.any.required)).field
    "a.b" scoreSchema.any.required).field "" scoreSchema.any.required

/-- What it compiles to. -/
def dottedReader : Entity :=
  .mk 0 dotted none (.behaviour ⟨none, []⟩ (.object
    [("a", .mk 1 (scoreSchema.object.field "b" scoreSchema.any.required) none
        (.behaviour ⟨none, []⟩ (.object
          [("b", .mk 2 scoreSchema.any.required none (.behaviour ⟨none, []⟩ .pass))]
          ⟨[("b", some "b")], [], some ["b"]⟩ .strip []))),
      ("a.b", .mk 3 scoreSchema.any.required none (.behaviour ⟨none, []⟩ .pass)),
      ("", .mk 4 scoreSchema.any.required none (.behaviour ⟨none, []⟩ .pass))]
    ⟨[("a", some "a"), ("a.b", some "a.b"), ("", some "")], [], some ["a", "a.b", ""]⟩ .strip []))

/-- An object with an empty object and nothing else. -/
def emptyInside : Option Value := some (.object [("a", .object [])])

/-- Two trackers whose issues have one path, and one below the root whose issue has none and is
rendered as one of the root. -/
theorem paths_shared :
    dotted.Built Registry.standard ∧ Mapper.standard.compile dotted = .ok dottedReader ∧
    ∃ x ∈ (dottedReader.run emptyInside).allIssues, ∃ y ∈ (dottedReader.run emptyInside).allIssues,
    ∃ z ∈ (dottedReader.run emptyInside).allIssues,
      x ∈ (dottedReader.run emptyInside).tree.located 2 ∧
      y ∈ (dottedReader.run emptyInside).tree.located 4 ∧ x.path = "a.b" ∧ y.path = "a.b" ∧
      z ∈ (dottedReader.run emptyInside).tree.located 3 ∧ z.path = "" ∧
      Catalogue.empty.renderLocated z = "value: generic/required" := by
  have hbuilt : dotted.Built Registry.standard := by
    have hany : scoreSchema.any.required.Built Registry.standard :=
      .configure _ (.start fun _ => rfl)
    have hobject : scoreSchema.object.Built Registry.standard := .start fun _ => rfl
    exact .field "" (.field "a.b" (.field "a" hobject (.field "b" hobject hany)) hany) hany
  have hvisited : (dottedReader.run emptyInside).tree.descend TrackerTree.root = [0, 1, 4, 2, 3] := by
    decide +kernel
  have hmem : ∀ i ∈ [0, 1, 4, 2, 3], ∀ x ∈ (dottedReader.run emptyInside).tree.located i,
      x ∈ (dottedReader.run emptyInside).allIssues := by
    intro i hi x hx
    exact List.mem_flatMap.2 ⟨i, hvisited ▸ hi, hx⟩
  have hdot : ∃ x ∈ (dottedReader.run emptyInside).tree.located 2, x.path = "a.b" := by
    simpa using show ((dottedReader.run emptyInside).tree.located 2).any (·.path == "a.b") = true by
      decide +kernel
  have hinside : ∃ y ∈ (dottedReader.run emptyInside).tree.located 4, y.path = "a.b" := by
    simpa using show ((dottedReader.run emptyInside).tree.located 4).any (·.path == "a.b") = true by
      decide +kernel
  have hnameless : ∃ z ∈ (dottedReader.run emptyInside).tree.located 3, z.path = "" ∧
      Catalogue.empty.renderLocated z = "value: generic/required" := by
    simpa using show ((dottedReader.run emptyInside).tree.located 3).any (fun z => z.path == "" &&
      Catalogue.empty.renderLocated z == "value: generic/required") = true by decide +kernel
  obtain ⟨x, hx, hxpath⟩ := hdot
  obtain ⟨y, hy, hypath⟩ := hinside
  obtain ⟨z, hz, hzpath, hzline⟩ := hnameless
  exact ⟨hbuilt, by cbv, x, hmem 2 (by decide) x hx, y, hmem 4 (by decide) y hy, z,
    hmem 3 (by decide) z hz, hx, hy, hxpath, hypath, hz, hzpath, hzline⟩

end Run

end Intake
