import Mathlib.Data.List.Basic
import Intake.Catalogue
/-!
# Templates in parts

From the left, a template is characters and names in braces.  A brace that is never closed is a
character, and so is all that follows it.  Nothing is lost (`parts_verbatim`), and to fill a
template in is to give each part its text (`fillChars_eq`):

    fillChars lookup cs = (parts cs).flatMap (Part.fill lookup)
-/

namespace Intake.Template

inductive Part where
  | char (c : Char)
  | name (name : String)
deriving DecidableEq

namespace Part

def name? : Part → Option String
  | char _ => none
  | name n => some n

/-- A part as it stands in the template. -/
def verbatim : Part → List Char
  | char c => [c]
  | name n => '\x7b' :: (n.toList ++ ['\x7d'])

/-- A part with the value of its name in place, if there is one. -/
def fill (lookup : String → Option String) : Part → List Char
  | char c => [c]
  | name n => fillName lookup n.toList

/-- A part whose name has a value. -/
def substitute (text : String → String) : Part → List Char
  | char c => [c]
  | name n => (text n).toList

end Part

/-- The parts of a template, which are read as it is filled in. -/
def parts : List Char → List Part
  | [] => []
  | c :: cs =>
    if c = '\x7b' then
      match _h : splitName cs with
      | some (name, rest) => .name (String.ofList name) :: parts rest
      | none => (c :: cs).map .char
    else .char c :: parts cs
termination_by cs => cs.length
decreasing_by
  · have := length_of_splitName _h
    simp only [List.length_cons]
    omega
  · simp

/-- The names in braces. -/
def names (template : String) : List String := (parts template.toList).filterMap (·.name?)

/-- The template with a text in the place of every name. -/
def substitute (text : String → String) (template : String) : String :=
  String.ofList ((parts template.toList).flatMap (Part.substitute text))

theorem mem_names {template n : String} : n ∈ names template ↔ .name n ∈ parts template.toList := by
  unfold names
  rw [List.mem_filterMap]
  constructor
  · rintro ⟨part, hpart, hn⟩
    cases part with
    | char c => cases hn
    | name m => exact Option.some.inj hn ▸ hpart
  · intro hpart
    exact ⟨_, hpart, rfl⟩

/-! ## Reading loses nothing -/

theorem eq_of_splitName {cs name rest : List Char} (h : splitName cs = some (name, rest)) :
    name ++ '\x7d' :: rest = cs := by
  induction cs generalizing name with
  | nil => cases h
  | cons c cs ih =>
    unfold splitName at h
    split at h
    · next hc =>
      obtain ⟨rfl, rfl⟩ := Prod.mk.inj (Option.some.inj h)
      rw [hc, List.nil_append]
    · obtain ⟨⟨n, r⟩, hsplit, he⟩ := Option.map_eq_some_iff.1 h
      obtain ⟨rfl, rfl⟩ := Prod.mk.inj he
      rw [List.cons_append, ih hsplit]

theorem flatMap_char {f : Part → List Char} (hf : ∀ c, f (.char c) = [c]) (cs : List Char) :
    (cs.map Part.char).flatMap f = cs := by
  induction cs with
  | nil => rfl
  | cons c cs ih => rw [List.map_cons, List.flatMap_cons, hf, ih, List.singleton_append]

section

variable {cs name rest : List Char} {lookup : String → Option String}

theorem parts_named (h : splitName cs = some (name, rest)) :
    parts ('\x7b' :: cs) = .name (String.ofList name) :: parts rest := by
  rw [parts, if_pos rfl]
  split
  · next hsplit =>
    obtain ⟨rfl, rfl⟩ := Prod.mk.inj (Option.some.inj (hsplit.symm.trans h))
    rfl
  · next hsplit => cases hsplit.symm.trans h

theorem parts_unclosed (h : splitName cs = none) :
    parts ('\x7b' :: cs) = ('\x7b' :: cs).map .char := by
  rw [parts, if_pos rfl]
  split
  · next hsplit => cases hsplit.symm.trans h
  · rfl

theorem fillChars_named (h : splitName cs = some (name, rest)) :
    fillChars lookup ('\x7b' :: cs) = fillName lookup name ++ fillChars lookup rest := by
  rw [fillChars, if_pos rfl]
  split
  · next hsplit =>
    obtain ⟨rfl, rfl⟩ := Prod.mk.inj (Option.some.inj (hsplit.symm.trans h))
    rfl
  · next hsplit => cases hsplit.symm.trans h

theorem fillChars_unclosed (h : splitName cs = none) :
    fillChars lookup ('\x7b' :: cs) = '\x7b' :: cs := by
  rw [fillChars, if_pos rfl]
  split
  · next hsplit => cases hsplit.symm.trans h
  · rfl

end

theorem parts_verbatim (cs : List Char) : (parts cs).flatMap Part.verbatim = cs := by
  induction cs using parts.induct with
  | case1 =>
    rw [parts]
    rfl
  | case2 cs name rest h ih =>
    rw [parts_named h, List.flatMap_cons, ih, Part.verbatim, String.toList_ofList,
      ← eq_of_splitName h]
    simp
  | case3 cs h =>
    rw [parts_unclosed h]
    exact flatMap_char (fun _ => rfl) _
  | case4 c cs h ih =>
    rw [parts, if_neg h, List.flatMap_cons, ih]
    rfl

/-! ## Filling in -/

theorem fillChars_eq (lookup : String → Option String) (cs : List Char) :
    fillChars lookup cs = (parts cs).flatMap (Part.fill lookup) := by
  induction cs using parts.induct with
  | case1 =>
    rw [parts, fillChars]
    rfl
  | case2 cs name rest h ih =>
    rw [parts_named h, fillChars_named h, List.flatMap_cons, ih, Part.fill, String.toList_ofList]
  | case3 cs h =>
    rw [parts_unclosed h, fillChars_unclosed h]
    exact (flatMap_char (fun _ => rfl) _).symm
  | case4 c cs h ih =>
    rw [parts, fillChars, if_neg h, if_neg h, List.flatMap_cons, ih]
    rfl

/-- Where every name has a value, no brace is left. -/
theorem fill_eq_substitute {template : String} {lookup : String → Option String}
    {text : String → String} (h : ∀ n ∈ names template, lookup n = some (text n)) :
    fill template lookup = substitute text template := by
  unfold fill substitute
  rw [fillChars_eq]
  refine congrArg String.ofList (congrArg List.flatten (List.map_congr_left fun part hpart => ?_))
  cases part with
  | char c => rfl
  | name n =>
    rw [Part.fill, fillName, String.ofList_toList, h n (mem_names.2 hpart)]
    rfl

/-- A character that the template does not have comes from a value. -/
theorem mem_fill_iff {template : String} {lookup : String → Option String} {b : Char}
    (hb : b ∉ template.toList) :
    b ∈ (fill template lookup).toList ↔
      ∃ n ∈ names template, ∃ text, lookup n = some text ∧ b ∈ text.toList := by
  have hverbatim : ∀ part ∈ parts template.toList, b ∉ part.verbatim := by
    intro part hpart hmem
    rw [← parts_verbatim template.toList] at hb
    exact hb (List.mem_flatMap.2 ⟨part, hpart, hmem⟩)
  have hname : ∀ n, b ∉ Part.verbatim (.name n) → (b ∈ Part.fill lookup (.name n) ↔
      ∃ text, lookup n = some text ∧ b ∈ text.toList) := by
    intro n hn
    rw [Part.fill, fillName, String.ofList_toList]
    cases lookup n with
    | none => exact ⟨fun hmem => absurd hmem hn, nofun⟩
    | some text => simp
  unfold fill
  rw [String.toList_ofList, fillChars_eq, List.mem_flatMap]
  constructor
  · rintro ⟨part, hpart, hmem⟩
    cases part with
    | char c => exact absurd hmem (hverbatim _ hpart)
    | name n => exact ⟨n, mem_names.2 hpart, (hname n (hverbatim _ hpart)).1 hmem⟩
  · rintro ⟨n, hn, htext⟩
    have hpart := mem_names.1 hn
    exact ⟨_, hpart, (hname n (hverbatim _ hpart)).2 htext⟩

end Intake.Template
