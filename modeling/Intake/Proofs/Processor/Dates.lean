import Intake.Proofs.Date.Iso
import Intake.Proofs.Processor.Standard
/-!
# Dates under the standard processors

A step of a standard processor keeps the date of a value, although it may change the text: the
characters of a spelling are digits, signs and blanks, which have no letter case, and a date is
read alike with and without the blanks in front of it.

    dateOf v = some d → dateOf (p.run v args).value = some d
-/

namespace Intake

/-! ## Spellings -/

namespace Date

section

variable {f : Figure} {n : Int} {cs rest : List Char} {d : Date}

theorem FigureText.plain_mem {text : List Char} (h : FigureText f n text) :
    ∀ c ∈ text, c.isDigit = true ∨ c = '-' ∨ c = '+' := by
  intro c hc
  cases h with
  | plain h => exact .inl (h.digits c hc)
  | minus hf h =>
    rcases List.mem_cons.1 hc with rfl | hc
    · exact .inr (.inl rfl)
    · exact .inl (h.digits c hc)
  | plus hf h =>
    rcases List.mem_cons.1 hc with rfl | hc
    · exact .inr (.inr rfl)
    · exact .inl (h.digits c hc)

theorem Figured.plain_mem (h : Figured f n rest cs) :
    ∀ c ∈ cs, (Text.isBlank c = true ∨ c.isDigit = true ∨ c = '-' ∨ c = '+') ∨ c ∈ rest := by
  obtain ⟨hblanks, htext⟩ := h
  intro c hc
  rcases List.mem_append.1 hc with hc | hc
  · exact .inl (.inl (hblanks c hc))
  · exact (List.mem_append.1 hc).imp_left fun hc => .inr (htext.plain_mem c hc)

/-- The characters of a spelling are blanks, digits and signs. -/
theorem Spells.plain_mem (h : d.Spells cs) :
    ∀ c ∈ cs, Text.isBlank c = true ∨ c.isDigit = true ∨ c = '-' ∨ c = '+' := by
  obtain ⟨c₁, c₂, hyear, hmonth, hday⟩ := h
  intro c hc
  rcases hyear.plain_mem c hc with hc | hc
  · exact hc
  rcases List.mem_cons.1 hc with rfl | hc
  · exact .inr (.inr (.inl rfl))
  rcases hmonth.plain_mem c hc with hc | hc
  · exact hc
  rcases List.mem_cons.1 hc with rfl | hc
  · exact .inr (.inr (.inl rfl))
  exact (hday.plain_mem c hc).resolve_right List.not_mem_nil

theorem Figured.suffix (h : Figured f n rest cs) : rest <:+ cs := by
  obtain ⟨hblanks, htext⟩ := h
  rw [← List.append_assoc]
  exact List.suffix_append _ _

theorem FigureText.digits_of_unsigned {text : List Char} (h : FigureText f n text)
    (hf : ¬ (f = .year ∨ f = .isoYear)) : text ≠ [] ∧ ∀ c ∈ text, c.isDigit = true := by
  cases h with
  | plain h => exact ⟨h.some_digit, h.digits⟩
  | minus hf' h => exact absurd hf' hf
  | plus hf' h => exact absurd hf' hf

/-- A spelling ends with a digit. -/
theorem Spells.getLast?_not_blank (h : d.Spells cs) :
    ∀ c ∈ cs.getLast?, Text.isBlank c = false := by
  obtain ⟨c₁, c₂, hyear, hmonth, hday⟩ := h
  obtain ⟨before, rfl⟩ : c₂ <:+ cs :=
    (List.suffix_cons _ _).trans <| hmonth.suffix.trans <|
      (List.suffix_cons _ _).trans hyear.suffix
  obtain ⟨hblanks, htext⟩ := hday
  obtain ⟨hne, hdigits⟩ := htext.digits_of_unsigned (by decide)
  intro c hc
  rw [List.append_nil, ← List.append_assoc, List.getLast?_append_of_ne_nil _ hne] at hc
  exact Text.isBlank_of_isDigit (hdigits c (List.mem_of_mem_getLast? hc))

theorem Spells.trim (h : d.Spells cs) : d.Spells (Text.trim cs) := by
  have hstart : d.Spells (Text.trimStart cs) := by
    obtain ⟨c₁, c₂, ⟨hblanks, htext⟩, hmonth, hday⟩ := h
    rw [Text.trimStart_append hblanks htext.head?_not_blank]
    exact ⟨c₁, c₂, figured_of_text htext _, hmonth, hday⟩
  have hend : Text.trimEnd (Text.trimStart cs ++ []) = Text.trimStart cs :=
    Text.trimEnd_append (fun _ hc => nomatch hc) hstart.getLast?_not_blank
  rw [List.append_nil] at hend
  rwa [Text.trim, hend]

theorem Spells.lower (h : d.Spells cs) : d.Spells (Text.lower cs) :=
  (Text.lower_of_caseless fun c hc => Text.caseless_of_plain (h.plain_mem c hc)).symm ▸ h

theorem Spells.upper (h : d.Spells cs) : d.Spells (Text.upper cs) :=
  (Text.upper_of_caseless fun c hc => Text.caseless_of_plain (h.plain_mem c hc)).symm ▸ h

end

end Date

/-! ## Steps -/

namespace Processor

open StepResult

theorem dateOf_eq_some {v : Value} {d : Date} :
    dateOf v = some d ↔ ∃ s, v = .str s ∧ d.Valid ∧ d.Spells s.toList := by
  constructor
  · intro h
    cases v with
    | str s => exact ⟨s, rfl, Date.read_isoPattern_iff.1 h⟩
    | _ => cases h
  · rintro ⟨s, rfl, h⟩
    exact Date.read_isoPattern_iff.2 h

/-- A processor that keeps the date of a value unless it is a format processor. -/
def KeepsDates (p : Processor) : Prop :=
  p.isFormat = false → ∀ v args d, dateOf v = some d → dateOf (p.run v args).value = some d

theorem KeepsDates.of_check {key : String} {run : Value → Arguments → StepResult}
    (h : ∀ v args, Checks v (run v args)) : KeepsDates (.step key run) :=
  fun _ v args _ hd => (congrArg dateOf (h v args).hands.value_eq).trans hd

theorem KeepsDates.of_text {key : String} {f : List Char → List Char}
    (h : ∀ (d : Date) cs, d.Spells cs → d.Spells (f cs)) : KeepsDates (.step key (onText f)) := by
  intro _ v args d hd
  obtain ⟨s, rfl, hvalid, hspells⟩ := dateOf_eq_some.1 hd
  exact dateOf_eq_some.2 ⟨_, rfl, hvalid, String.toList_ofList.symm ▸ h d _ hspells⟩

theorem KeepsDates.of_format {key : String} {run : Value → Arguments → StepResult} :
    KeepsDates (.format key run) :=
  fun hformat => nomatch hformat

theorem keepsDates_choice : ∀ p ∈ choice, p.KeepsDates := by
  simp only [choice, List.forall_mem_cons]
  exact ⟨.of_check equals_checks, .of_check oneOf_checks, List.forall_mem_nil _⟩

theorem keepsDates_texts : ∀ p ∈ texts, p.KeepsDates := by
  simp only [texts, List.forall_mem_cons]
  exact ⟨.of_text fun _ _ h => h.trim, .of_text fun _ _ h => h.lower, .of_text fun _ _ h => h.upper,
    .of_check notEmpty_checks, .of_check (checkLength_checks (by decide)),
    .of_check (checkLength_checks (by decide)), List.forall_mem_nil _⟩

theorem keepsDates_numbers : ∀ p ∈ numbers, p.KeepsDates := by
  simp only [numbers, List.forall_mem_cons]
  exact ⟨.of_format, .of_check (checkNumber_checks (by decide)),
    .of_check (checkNumber_checks (by decide)), .of_check wholeNumber_checks, List.forall_mem_nil _⟩

theorem keepsDates_truth : ∀ p ∈ truth, p.KeepsDates := by
  simp only [truth, List.forall_mem_cons]
  exact ⟨.of_format, List.forall_mem_nil _⟩

theorem keepsDates_dates : ∀ p ∈ dates, p.KeepsDates := by
  simp only [dates, List.forall_mem_cons]
  exact ⟨.of_format, .of_check (checkDate_checks (by decide)),
    .of_check (checkDate_checks (by decide)), List.forall_mem_nil _⟩

theorem keepsDates_lists : ∀ p ∈ lists, p.KeepsDates := by
  simp only [lists, List.forall_mem_cons]
  exact ⟨.of_check (checkCount_checks (by decide)), .of_check (checkCount_checks (by decide)),
    .of_check unique_checks, List.forall_mem_nil _⟩

/-- No step of a standard processor changes the day. -/
theorem keepsDates_of_standard {key : String} {p : Processor}
    (h : Table.get? Registry.standard key = some p) : p.KeepsDates := by
  have hp := mem_of_standard h
  simp only [List.mem_append] at hp
  rcases hp with ((((hp | hp) | hp) | hp) | hp) | hp
  · exact keepsDates_choice p hp
  · exact keepsDates_texts p hp
  · exact keepsDates_numbers p hp
  · exact keepsDates_truth p hp
  · exact keepsDates_dates p hp
  · exact keepsDates_lists p hp

end Processor

end Intake
