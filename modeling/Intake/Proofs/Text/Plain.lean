import Intake.Text.Blank
import Intake.Text.Case
import Mathlib.Data.List.Basic
/-!
# Blanks, digits and signs

A text between blanks is what is left of it when blanks are trimmed at both ends.  Digits are no
blanks, and digits, signs and blanks have no letter case: a text of them stays the same in lower
and in upper case.
-/

namespace Intake

/-! ## Texts between blanks -/

namespace Text

variable {before cs after : List Char}

theorem trimStart_append (hbefore : ∀ c ∈ before, isBlank c = true)
    (hhead : ∀ c ∈ cs.head?, isBlank c = false) : trimStart (before ++ cs) = cs := by
  rw [trimStart, List.dropWhile_append_of_pos hbefore]
  cases cs with
  | nil => rfl
  | cons c cs => exact List.dropWhile_cons_of_neg (by simp [hhead c rfl])

theorem trimEnd_append (hafter : ∀ c ∈ after, isBlank c = true)
    (hlast : ∀ c ∈ cs.getLast?, isBlank c = false) : trimEnd (cs ++ after) = cs := by
  have hreverse : trimStart (after.reverse ++ cs.reverse) = cs.reverse :=
    trimStart_append (fun c hc => hafter c (List.mem_reverse.1 hc))
      fun c hc => hlast c (by rwa [List.head?_reverse] at hc)
  rw [trimStart] at hreverse
  rw [trimEnd, List.reverse_append, hreverse, List.reverse_reverse]

/-- A text without a blank in it is what is left of it between blanks. -/
theorem trim_between (hbefore : ∀ c ∈ before, isBlank c = true) (hcs : ∀ c ∈ cs, isBlank c = false)
    (hafter : ∀ c ∈ after, isBlank c = true) (hne : cs ≠ []) :
    trim (before ++ (cs ++ after)) = cs := by
  have hhead : ∀ c ∈ (cs ++ after).head?, isBlank c = false := by
    rw [List.head?_append_of_ne_nil _ hne]
    exact fun c hc => hcs c (List.mem_of_mem_head? hc)
  rw [trim, trimStart_append hbefore hhead]
  exact trimEnd_append hafter fun c hc => hcs c (List.mem_of_mem_getLast? hc)

theorem isDigit_bounds {c : Char} (h : c.isDigit = true) : 0x30 ≤ c.toNat ∧ c.toNat < 0x3A := by
  simp only [Char.isDigit, Bool.and_eq_true, decide_eq_true_eq, ge_iff_le,
    UInt32.le_iff_toNat_le] at h
  exact ⟨h.1, Nat.lt_succ_of_le h.2⟩

theorem isBlank_of_isDigit {c : Char} (h : c.isDigit = true) : isBlank c = false := by
  obtain ⟨hlow, hhigh⟩ := isDigit_bounds h
  simp only [isBlank, Bool.or_eq_false_iff, Bool.and_eq_false_iff, decide_eq_false_iff_not,
    beq_eq_false_iff_ne]
  omega

/-! ## Characters without letter case -/

/-- A character that is left alone when a text changes its letter case. -/
structure Caseless (c : Char) : Prop where
  not_sigma : c ≠ 'Σ'
  lower : mapCase lowerRuns lowerSpecial c = [c]
  upper : mapCase upperRuns upperSpecial c = [c]

theorem lower_of_caseless {cs : List Char} (h : ∀ c ∈ cs, Caseless c) : lower cs = cs := by
  have hafter : ∀ before, lowerAfter before cs = cs := by
    induction cs with
    | nil => exact fun _ => rfl
    | cons c cs ih =>
      intro before
      obtain ⟨hc, hcs⟩ := List.forall_mem_cons.1 h
      rw [lowerAfter, ih hcs, if_neg hc.not_sigma, hc.lower]
      rfl
  exact hafter []

theorem upper_of_caseless {cs : List Char} (h : ∀ c ∈ cs, Caseless c) : upper cs = cs := by
  rw [upper]
  induction cs with
  | nil => rfl
  | cons c cs ih =>
    obtain ⟨hc, hcs⟩ := List.forall_mem_cons.1 h
    rw [List.flatMap_cons, hc.upper, ih hcs]
    rfl

/-- The code points of digits, signs and blanks. -/
def plainPoints : List Nat :=
  List.range' 9 5 ++ List.range' 0x30 10 ++ List.range' 0x2000 11 ++
    [0x20, 0x2B, 0x2D, 0x85, 0xA0, 0x1680, 0x2028, 0x2029, 0x202F, 0x205F, 0x3000]

theorem mem_plainPoints {c : Char} (h : isBlank c = true ∨ c.isDigit = true ∨ c = '-' ∨ c = '+') :
    c.toNat ∈ plainPoints := by
  have hpoint : c.toNat ∈ plainPoints ↔ (9 ≤ c.toNat ∧ c.toNat < 14) ∨
      (0x30 ≤ c.toNat ∧ c.toNat < 0x3A) ∨ (0x2000 ≤ c.toNat ∧ c.toNat < 0x200B) ∨
      c.toNat ∈ [0x20, 0x2B, 0x2D, 0x85, 0xA0, 0x1680, 0x2028, 0x2029, 0x202F, 0x205F, 0x3000] := by
    simp only [plainPoints, List.mem_append, List.mem_range'_1, or_assoc]
  rw [hpoint]
  simp only [List.mem_cons, List.not_mem_nil, or_false]
  rcases h with h | h | rfl | rfl
  · simp only [isBlank, Bool.or_eq_true, Bool.and_eq_true, decide_eq_true_eq, beq_iff_eq] at h
    omega
  · exact .inr (.inl (isDigit_bounds h))
  · decide
  · decide

theorem caseless_of_plain {c : Char}
    (h : isBlank c = true ∨ c.isDigit = true ∨ c = '-' ∨ c = '+') : Caseless c := by
  -- the tables have none of the code points
  have htables : ∀ n ∈ plainPoints, n ≠ 'Σ'.toNat ∧
      lowerSpecial.lookup n = none ∧ lowerRuns.findSome? (·.image? n) = none ∧
      upperSpecial.lookup n = none ∧ upperRuns.findSome? (·.image? n) = none := by
    decide +kernel
  obtain ⟨hsigma, hlower, hlowers, hupper, huppers⟩ := htables _ (mem_plainPoints h)
  refine ⟨fun hc => hsigma (congrArg Char.toNat hc), ?_, ?_⟩
  · rw [mapCase, hlower, hlowers]
  · rw [mapCase, hupper, huppers]

end Text

end Intake
