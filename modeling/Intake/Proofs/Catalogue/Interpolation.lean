import Intake.Proofs.Catalogue.Template
/-!
# Templates are filled in at once

A template reads from the left as texts without an opening brace, each but the last with a name in
braces after it that goes up to the first closing brace; the last text may be followed by a brace
that is never closed.  There is one such `Reading` of every template, and the template is filled in
by putting, in all places at once, what is known of a name in the place of its braces:

    ∃ r : Reading, r.verbatim = template ∧ ∀ lookup, fill template lookup = r.fill lookup

So only the names of the template itself are looked up, whatever braces their values hold.
-/

namespace Intake.Template

/-- A template read from the left. -/
inductive Reading where
  | plain (text : List Char) (htext : '\x7b' ∉ text)
  | unclosed (text tail : List Char) (htext : '\x7b' ∉ text) (htail : '\x7d' ∉ tail)
  | named (text : List Char) (name : String) (rest : Reading) (htext : '\x7b' ∉ text)
      (hname : '\x7d' ∉ name.toList)

namespace Reading

/-- The text that reads so. -/
def verbatim : Reading → List Char
  | plain text _ => text
  | unclosed text tail _ _ => text ++ '\x7b' :: tail
  | named text name rest _ _ => text ++ '\x7b' :: (name.toList ++ '\x7d' :: rest.verbatim)

/-- The text with the value of every name in its place; a name without one stays in its braces. -/
def fill (lookup : String → Option String) : Reading → List Char
  | plain text _ => text
  | unclosed text tail _ _ => text ++ '\x7b' :: tail
  | named text name rest _ _ =>
    text ++ ((lookup name).elim ('\x7b' :: (name.toList ++ ['\x7d'])) String.toList ++
      rest.fill lookup)

/-- The names in braces. -/
def names : Reading → List String
  | plain _ _ => []
  | unclosed _ _ _ _ => []
  | named _ name rest _ _ => name :: rest.names

def parts : Reading → List Part
  | plain text _ => text.map .char
  | unclosed text tail _ _ => text.map .char ++ ('\x7b' :: tail).map .char
  | named text name rest _ _ => text.map .char ++ .name name :: rest.parts

/-- One more character in front. -/
def cons (c : Char) (hc : '\x7b' ≠ c) : Reading → Reading
  | plain text htext => plain (c :: text) (List.not_mem_cons_of_ne_of_not_mem hc htext)
  | unclosed text tail htext htail =>
    unclosed (c :: text) tail (List.not_mem_cons_of_ne_of_not_mem hc htext) htail
  | named text name rest htext hname =>
    named (c :: text) name rest (List.not_mem_cons_of_ne_of_not_mem hc htext) hname

theorem verbatim_cons {c : Char} (hc : '\x7b' ≠ c) (r : Reading) :
    (r.cons c hc).verbatim = c :: r.verbatim := by
  cases r <;> rfl

end Reading

/-! ## Names up to the first closing brace -/

section

variable {cs name rest : List Char}

theorem splitName_eq_some :
    splitName cs = some (name, rest) ↔ '\x7d' ∉ name ∧ name ++ '\x7d' :: rest = cs := by
  constructor
  · intro h
    refine ⟨?_, eq_of_splitName h⟩
    induction cs generalizing name with
    | nil => cases h
    | cons c cs ih =>
      unfold splitName at h
      split at h
      · obtain ⟨rfl, rfl⟩ := Prod.mk.inj (Option.some.inj h)
        exact List.not_mem_nil
      · next hc =>
        obtain ⟨⟨n, r⟩, hsplit, he⟩ := Option.map_eq_some_iff.1 h
        obtain ⟨rfl, rfl⟩ := Prod.mk.inj he
        exact List.not_mem_cons_of_ne_of_not_mem (Ne.symm hc) (ih hsplit)
  · rintro ⟨hname, rfl⟩
    induction name with
    | nil => rfl
    | cons c name ih =>
      obtain ⟨hc, hrest⟩ := not_or.1 (mt List.mem_cons.2 hname)
      rw [List.cons_append, splitName, if_neg (Ne.symm hc), ih hrest]
      rfl

theorem splitName_eq_none : splitName cs = none ↔ '\x7d' ∉ cs := by
  induction cs with
  | nil => exact iff_of_true rfl List.not_mem_nil
  | cons c cs ih =>
    rw [splitName, List.mem_cons, not_or]
    split
    · next hc => exact iff_of_false (Option.some_ne_none _) fun h => h.1 hc.symm
    · next hc => rw [Option.map_eq_none_iff, ih, and_iff_right (Ne.symm hc)]

theorem parts_append {text : List Char} (htext : '\x7b' ∉ text) (cs : List Char) :
    parts (text ++ cs) = text.map .char ++ parts cs := by
  induction text with
  | nil => rfl
  | cons c text ih =>
    obtain ⟨hc, hrest⟩ := not_or.1 (mt List.mem_cons.2 htext)
    rw [List.cons_append, parts, if_neg (Ne.symm hc), ih hrest]
    rfl

/-- What precedes the first brace, and what follows it. -/
theorem eq_of_append_cons {s : Char} {a b x y : List Char} (ha : s ∉ a) (hb : s ∉ b)
    (h : a ++ s :: x = b ++ s :: y) : a = b ∧ x = y := by
  induction a generalizing b with
  | nil =>
    cases b with
    | nil => exact ⟨rfl, (List.cons.inj h).2⟩
    | cons c b => exact absurd ((List.cons.inj h).1 ▸ List.mem_cons_self) hb
  | cons c a ih =>
    obtain ⟨hc, hrest⟩ := not_or.1 (mt List.mem_cons.2 ha)
    cases b with
    | nil => exact absurd (List.cons.inj h).1.symm hc
    | cons d b =>
      obtain ⟨rfl, heq⟩ := List.cons.inj h
      obtain ⟨rfl, rfl⟩ := ih hrest (not_or.1 (mt List.mem_cons.2 hb)).2 heq
      exact ⟨rfl, rfl⟩

end

namespace Reading

/-! ## One reading of every template -/

theorem exists_verbatim_eq (cs : List Char) : ∃ r : Reading, r.verbatim = cs := by
  induction cs using Template.parts.induct with
  | case1 => exact ⟨.plain [] List.not_mem_nil, rfl⟩
  | case2 cs name rest h ih =>
    obtain ⟨r, rfl⟩ := ih
    obtain ⟨hname, rfl⟩ := splitName_eq_some.1 h
    have htoList : (String.ofList name).toList = name := String.toList_ofList
    refine ⟨.named [] (String.ofList name) r List.not_mem_nil (htoList.symm ▸ hname), ?_⟩
    rw [verbatim, htoList]
    rfl
  | case3 cs h => exact ⟨.unclosed [] cs List.not_mem_nil (splitName_eq_none.1 h), rfl⟩
  | case4 c cs h ih =>
    obtain ⟨r, rfl⟩ := ih
    exact ⟨r.cons c (Ne.symm h), verbatim_cons _ r⟩

theorem verbatim_injective {r r' : Reading} (h : r.verbatim = r'.verbatim) : r = r' := by
  -- a text without a brace reads in one way, and a brace is closed or it is not
  have hopen : ∀ {text text' : List Char} {cs : List Char}, '\x7b' ∉ text →
      text ≠ text' ++ '\x7b' :: cs := fun htext heq =>
    htext (heq ▸ List.mem_append_right _ List.mem_cons_self)
  have hclosed : ∀ {tail : List Char} {name : String} {cs : List Char}, '\x7d' ∉ tail →
      tail ≠ name.toList ++ '\x7d' :: cs := fun htail heq =>
    htail (heq ▸ List.mem_append_right _ List.mem_cons_self)
  induction r generalizing r' with
  | plain text htext =>
    cases r' with
    | plain text' htext' =>
      obtain rfl : text = text' := h
      rfl
    | unclosed text' tail htext' htail => exact absurd h (hopen htext)
    | named text' name rest htext' hname => exact absurd h (hopen htext)
  | unclosed text tail htext htail =>
    cases r' with
    | plain text' htext' => exact absurd h.symm (hopen htext')
    | unclosed text' tail' htext' htail' =>
      obtain ⟨rfl, rfl⟩ := eq_of_append_cons htext htext' h
      rfl
    | named text' name rest htext' hname =>
      exact absurd (eq_of_append_cons htext htext' h).2 (hclosed htail)
  | named text name rest htext hname ih =>
    cases r' with
    | plain text' htext' => exact absurd h.symm (hopen htext')
    | unclosed text' tail htext' htail =>
      exact absurd (eq_of_append_cons htext htext' h).2.symm (hclosed htail)
    | named text' name' rest' htext' hname' =>
      obtain ⟨rfl, heq⟩ := eq_of_append_cons htext htext' h
      obtain ⟨hnames, hrest⟩ := eq_of_append_cons hname hname' heq
      obtain rfl := String.toList_inj.1 hnames
      obtain rfl := ih hrest
      rfl

/-! ## Filling in -/

theorem parts_verbatim (r : Reading) : Template.parts r.verbatim = r.parts := by
  induction r with
  | plain text htext =>
    have hsplit := parts_append htext []
    rw [List.append_nil, Template.parts, List.append_nil] at hsplit
    exact hsplit
  | unclosed text tail htext htail =>
    rw [verbatim, parts_append htext, parts_unclosed (splitName_eq_none.2 htail)]
    rfl
  | named text name rest htext hname ih =>
    rw [verbatim, parts_append htext, parts_named (splitName_eq_some.2 ⟨hname, rfl⟩), ih,
      String.ofList_toList]
    rfl

theorem flatMap_parts (lookup : String → Option String) (r : Reading) :
    r.parts.flatMap (Part.fill lookup) = r.fill lookup := by
  have hchars : ∀ cs : List Char, (cs.map Part.char).flatMap (Part.fill lookup) = cs :=
    flatMap_char fun _ => rfl
  induction r with
  | plain text htext => exact hchars text
  | unclosed text tail htext htail => rw [parts, List.flatMap_append, hchars, hchars, fill]
  | named text name rest htext hname ih =>
    rw [parts, List.flatMap_append, hchars, List.flatMap_cons, ih, fill, Part.fill, fillName,
      String.ofList_toList]
    cases lookup name <;> rfl

/-- Only what is known of the names matters. -/
theorem fill_congr {lookup lookup' : String → Option String} {r : Reading}
    (h : ∀ n ∈ r.names, lookup n = lookup' n) : r.fill lookup = r.fill lookup' := by
  induction r with
  | plain text htext => rfl
  | unclosed text tail htext htail => rfl
  | named text name rest htext hname ih =>
    obtain ⟨hlookup, hrest⟩ := List.forall_mem_cons.1 h
    rw [fill, fill, hlookup, ih hrest]

theorem fill_eq_verbatim {lookup : String → Option String} {r : Reading}
    (h : ∀ n ∈ r.names, lookup n = none) : r.fill lookup = r.verbatim := by
  induction r with
  | plain text htext => rfl
  | unclosed text tail htext htail => rfl
  | named text name rest htext hname ih =>
    obtain ⟨hlookup, hrest⟩ := List.forall_mem_cons.1 h
    rw [fill, hlookup, ih hrest, verbatim]
    simp

end Reading

/-- Every template has one reading, and it is filled in, for every lookup, by putting the values of
the names of the reading in place, all at once.  Nothing else is looked up, so what the values hold
does not matter; where no name is known, the template stays as it is. -/
theorem fill_reading (template : String) :
    ∃ r : Reading, (∀ r' : Reading, r'.verbatim = template.toList ↔ r' = r) ∧
      (∀ lookup, (fill template lookup).toList = r.fill lookup) ∧
      (∀ lookup lookup', (∀ n ∈ r.names, lookup n = lookup' n) →
        fill template lookup = fill template lookup') ∧
      ∀ lookup, (∀ n ∈ r.names, lookup n = none) → fill template lookup = template := by
  obtain ⟨r, hr⟩ := Reading.exists_verbatim_eq template.toList
  have hfill : ∀ lookup, (fill template lookup).toList = r.fill lookup := by
    intro lookup
    rw [fill, String.toList_ofList, fillChars_eq, ← hr, r.parts_verbatim, r.flatMap_parts]
  refine ⟨r, fun r' => ⟨fun h => Reading.verbatim_injective (h.trans hr.symm), fun h => h ▸ hr⟩,
    hfill, fun lookup lookup' h => ?_, fun lookup h => ?_⟩
  · rw [← String.toList_inj, hfill, hfill, Reading.fill_congr h]
  · rw [← String.toList_inj, hfill, Reading.fill_eq_verbatim h, hr]

end Intake.Template
