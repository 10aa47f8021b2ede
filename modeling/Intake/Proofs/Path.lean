import Mathlib.Data.List.Basic
import Intake.Path
/-!
# Texts joined and split

What is joined by a separator is split into the pieces of its parts (`splitAt_append`).  So the
segments of a dotted path are found again if none has a dot, but for the path without segments,
which has the text of one empty segment:

    dotted p = dotted q → p = q ∨ p = [] ∧ q = [""] ∨ p = [""] ∧ q = []
-/

namespace Intake.Path

section

variable {s : Char}

theorem splitAt_ne_nil (cs : List Char) : splitAt s cs ≠ [] := by
  cases cs with
  | nil => exact List.cons_ne_nil _ _
  | cons c cs =>
    rw [splitAt]
    split
    · exact List.cons_ne_nil _ _
    · split <;> exact List.cons_ne_nil _ _

theorem splitAt_separator (cs : List Char) : splitAt s (s :: cs) = [] :: splitAt s cs := by
  rw [splitAt, if_pos rfl]

/-- A text without the separator is one piece. -/
theorem splitAt_of_not_mem {cs : List Char} (h : s ∉ cs) : splitAt s cs = [cs] := by
  induction cs with
  | nil => rfl
  | cons c cs ih =>
    obtain ⟨hc, hcs⟩ := not_or.1 (mt List.mem_cons.2 h)
    rw [splitAt, if_neg (Ne.symm hc), ih hcs]

theorem splitAt_append (cs rest : List Char) :
    splitAt s (cs ++ s :: rest) = splitAt s cs ++ splitAt s rest := by
  induction cs with
  | nil => exact splitAt_separator rest
  | cons c cs ih =>
    rw [List.cons_append, splitAt, splitAt, ih]
    split
    · rfl
    · cases hcs : splitAt s cs with
      | nil => exact absurd hcs (splitAt_ne_nil cs)
      | cons piece pieces => rfl

/-- There is one piece more than there are separators. -/
theorem length_splitAt (cs : List Char) : (splitAt s cs).length = cs.count s + 1 := by
  induction cs with
  | nil => rfl
  | cons c cs ih =>
    rw [splitAt, List.count_cons]
    split
    · next hc => rw [List.length_cons, ih, hc, beq_self_eq_true, if_pos rfl]
    · next hc =>
      cases hcs : splitAt s cs with
      | nil => exact absurd hcs (splitAt_ne_nil cs)
      | cons piece pieces =>
        rw [hcs] at ih
        simpa [hc] using ih

/-- Texts that are joined by the separator. -/
theorem splitAt_intercalate {parts : List (List Char)} (h : parts ≠ []) :
    splitAt s ([s].intercalate parts) = parts.flatMap (splitAt s) := by
  induction parts with
  | nil => exact absurd rfl h
  | cons part rest ih =>
    cases rest with
    | nil => simp
    | cons next rest =>
      rw [List.intercalate_cons_cons, List.append_assoc, List.singleton_append, splitAt_append,
        ih (List.cons_ne_nil _ _)]
      rfl

/-- Texts that each end in the separator. -/
theorem splitAt_lines (lines : List (List Char)) :
    splitAt s (lines.flatMap (· ++ [s])) = lines.flatMap (splitAt s) ++ [[]] := by
  induction lines with
  | nil => rfl
  | cons line rest ih =>
    rw [List.flatMap_cons, List.append_assoc, List.singleton_append, splitAt_append, ih,
      List.flatMap_cons, List.append_assoc]

theorem flatMap_splitAt_of_not_mem {parts : List (List Char)} (h : ∀ part ∈ parts, s ∉ part) :
    parts.flatMap (splitAt s) = parts := by
  induction parts with
  | nil => rfl
  | cons part rest ih =>
    rw [List.flatMap_cons, splitAt_of_not_mem (h part List.mem_cons_self),
      ih fun part hpart => h part (List.mem_cons_of_mem _ hpart), List.singleton_append]

theorem length_le_flatMap_splitAt (parts : List (List Char)) :
    parts.length ≤ (parts.flatMap (splitAt s)).length := by
  induction parts with
  | nil => exact Nat.le_refl _
  | cons part rest ih =>
    rw [List.flatMap_cons, List.length_append, length_splitAt, List.length_cons]
    omega

/-- Only texts without the separator stay whole. -/
theorem flatMap_splitAt_eq_iff {parts : List (List Char)} :
    parts.flatMap (splitAt s) = parts ↔ ∀ part ∈ parts, s ∉ part := by
  refine ⟨fun h => ?_, flatMap_splitAt_of_not_mem⟩
  have hlength := congrArg List.length h
  clear h
  induction parts with
  | nil => exact List.forall_mem_nil _
  | cons part rest ih =>
    -- no text is split into fewer pieces than one, so none may be split into more
    rw [List.flatMap_cons, List.length_append, length_splitAt, List.length_cons] at hlength
    have hrest := length_le_flatMap_splitAt (s := s) rest
    refine List.forall_mem_cons.2 ⟨List.count_eq_zero.1 ?_, ih ?_⟩ <;> omega

end

/-! ## Dotted paths -/

theorem toList_dotted (segments : List String) :
    (dotted segments).toList = ['.'].intercalate (segments.map String.toList) :=
  String.toList_intercalate

/-- The segments of a dotted path, if none has a dot. -/
theorem splitAt_dotted {segments : List String} (hne : segments ≠ [])
    (hdot : ∀ segment ∈ segments, '.' ∉ segment.toList) :
    splitAt '.' (dotted segments).toList = segments.map String.toList := by
  rw [toList_dotted, splitAt_intercalate (by simpa using hne)]
  refine flatMap_splitAt_of_not_mem fun part hpart => ?_
  obtain ⟨segment, hsegment, rfl⟩ := List.mem_map.1 hpart
  exact hdot segment hsegment

/-- A path whose text has no dot is one segment, or none. -/
theorem eq_of_dotted_eq {segments : List String} {text : String} (htext : '.' ∉ text.toList)
    (h : dotted segments = text) : segments = [text] ∨ segments = [] ∧ text = "" := by
  cases segments with
  | nil => exact .inr ⟨rfl, h.symm⟩
  | cons segment rest =>
    cases rest with
    | nil => exact .inl (congrArg (fun t => [t]) (String.intercalate_singleton.symm.trans h))
    | cons next rest =>
      refine absurd ?_ htext
      rw [← h, toList_dotted, List.map_cons, List.map_cons, List.intercalate_cons_cons]
      simp

/-- Paths of one text whose segments have no dot. -/
theorem eq_of_dotted_eq_dotted {p q : List String} (hp : ∀ segment ∈ p, '.' ∉ segment.toList)
    (hq : ∀ segment ∈ q, '.' ∉ segment.toList) (h : dotted p = dotted q) :
    p = q ∨ p = [] ∧ q = [""] ∨ p = [""] ∧ q = [] := by
  have hempty : ∀ {r : List String}, dotted r = "" → r = [""] ∨ r = [] := fun hr =>
    (eq_of_dotted_eq (by decide) hr).imp_right (·.1)
  by_cases hpnil : p = []
  · subst hpnil
    rcases hempty h.symm with rfl | rfl
    · exact .inr (.inl ⟨rfl, rfl⟩)
    · exact .inl rfl
  by_cases hqnil : q = []
  · subst hqnil
    rcases hempty h with rfl | rfl
    · exact .inr (.inr ⟨rfl, rfl⟩)
    · exact .inl rfl
  refine .inl (List.map_injective_iff.2 (fun _ _ => String.toList_inj.1) ?_)
  rw [← splitAt_dotted hpnil hp, ← splitAt_dotted hqnil hq, h]

end Intake.Path
