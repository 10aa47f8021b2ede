import Intake.Proofs.Date.Calendar
import Intake.Proofs.Number.Digits
import Intake.Proofs.Text.Plain
/-!
# Dates of a pipeline

The reader of the dates of a pipeline takes more than it writes: blanks in front of a number, one
digit for two, a year of fewer than four digits or with a sign.  `Spells d cs` lists what it takes,
and it takes nothing else:

    readIso s = some d ↔ d.Valid ∧ Spells d s.toList

What is written is one of these spellings, so it is read as the date that it was written for, and
no two dates are written alike.
-/

namespace Intake.Date

/-! ## Numbers -/

/-- Digits of a number, at most `width` of them if that is limited. -/
structure Digits (width : Option Nat) (n : Nat) (ds : List Char) : Prop where
  some_digit : ds ≠ []
  digits : ∀ c ∈ ds, c.isDigit = true
  width : ∀ w ∈ width, ds.length ≤ w
  number : numberOf ds = n

/-- A text that does not go on with a digit. -/
def Stops (rest : List Char) : Prop := ∀ c ∈ rest.head?, c.isDigit = false

theorem numberOf_eq (ds : List Char) : numberOf ds = Nat.ofDigitChars 10 ds 0 := foldl_digits ds 0

section

variable {width : Option Nat} {n : Nat} {cs ds rest : List Char}

theorem digits_of_readNumber (h : readNumber width cs = some (n, rest)) :
    ∃ ds, Digits width n ds ∧ cs = ds ++ rest := by
  unfold readNumber at h
  dsimp only at h
  split at h
  · cases h
  · next hne =>
    obtain ⟨rfl, rfl⟩ := Prod.mk.inj (Option.some.inj h)
    -- what is taken is the front of the run of digits, so the rest is what follows it
    have hfront : (width.map (cs.takeWhile Char.isDigit).take).getD (cs.takeWhile Char.isDigit) <+:
        cs.takeWhile Char.isDigit := by
      cases width with
      | none => exact List.prefix_refl _
      | some w => exact List.take_prefix _ _
    refine ⟨_, ⟨fun hnil => hne (List.isEmpty_iff.2 hnil), fun c hc => ?_, fun w hw => ?_, rfl⟩, ?_⟩
    · exact List.mem_takeWhile_imp (hfront.subset hc)
    · obtain rfl : width = some w := hw
      exact List.length_take_le _ _
    · exact (List.prefix_iff_eq_append.1 (hfront.trans <| List.takeWhile_prefix _)).symm

theorem Digits.isDigit_head? (h : Digits width n ds) :
    ∀ c ∈ (ds ++ rest).head?, c.isDigit = true := by
  intro c hc
  rw [List.head?_append_of_ne_nil _ h.some_digit] at hc
  exact h.digits c (List.mem_of_mem_head? hc)

theorem Digits.readNumber_eq (h : Digits width n ds) (hrest : Stops rest) :
    readNumber width (ds ++ rest) = some (n, rest) := by
  have hnone : rest.takeWhile Char.isDigit = [] := by
    cases rest with
    | nil => rfl
    | cons c rest => exact List.takeWhile_cons_of_neg (by simp [hrest c rfl])
  have hrun : (ds ++ rest).takeWhile Char.isDigit = ds := by
    rw [List.takeWhile_append_of_pos h.digits, hnone, List.append_nil]
  have htaken : (width.map ds.take).getD ds = ds := by
    cases width with
    | none => rfl
    | some w => exact List.take_of_length_le (h.width w rfl)
  unfold readNumber
  dsimp only
  rw [hrun, htaken, if_neg (by simp [h.some_digit]), h.number, List.drop_left]

end

/-! ## Figures -/

/-- The text of a figure: a year may have a sign, and then any number of digits. -/
inductive FigureText (f : Figure) : Int → List Char → Prop
  | plain {n : Nat} {ds : List Char} (h : Digits (widthOf f) n ds) : FigureText f n ds
  | minus {n : Nat} {ds : List Char} (hf : f = .year ∨ f = .isoYear) (h : Digits none n ds) :
      FigureText f (-n) ('-' :: ds)
  | plus {n : Nat} {ds : List Char} (hf : f = .year ∨ f = .isoYear) (h : Digits none n ds) :
      FigureText f n ('+' :: ds)

/-- A figure behind some blanks, and what follows it. -/
inductive Figured (f : Figure) (n : Int) (rest : List Char) : List Char → Prop
  | mk {blanks text : List Char} (hblanks : ∀ c ∈ blanks, Text.isBlank c = true)
      (htext : FigureText f n text) : Figured f n rest (blanks ++ (text ++ rest))

section

variable {f : Figure} {n : Int} {cs rest : List Char}

theorem figured_of_readFigure (h : readFigure f cs = some (n, rest)) : Figured f n rest cs := by
  have hcs : cs = cs.takeWhile Text.isBlank ++ Text.trimStart cs :=
    (List.takeWhile_append_dropWhile).symm
  have hblanks : ∀ c ∈ cs.takeWhile Text.isBlank, Text.isBlank c = true :=
    fun c hc => List.mem_takeWhile_imp hc
  suffices htext : ∃ text, FigureText f n text ∧ Text.trimStart cs = text ++ rest by
    obtain ⟨text, htext, heq⟩ := htext
    rw [hcs, heq]
    exact .mk hblanks htext
  unfold readFigure at h
  dsimp only at h
  split at h
  · next digits hminus =>
    split at h
    · next hf =>
      obtain ⟨⟨m, left⟩, hread, heq⟩ := Option.map_eq_some_iff.1 h
      obtain ⟨rfl, rfl⟩ := Prod.mk.inj heq
      obtain ⟨ds, hds, rfl⟩ := digits_of_readNumber hread
      exact ⟨_, .minus hf hds, hminus⟩
    · cases h
  · next digits hplus =>
    split at h
    · next hf =>
      obtain ⟨⟨m, left⟩, hread, heq⟩ := Option.map_eq_some_iff.1 h
      obtain ⟨rfl, rfl⟩ := Prod.mk.inj heq
      obtain ⟨ds, hds, rfl⟩ := digits_of_readNumber hread
      exact ⟨_, .plus hf hds, hplus⟩
    · cases h
  · obtain ⟨⟨m, left⟩, hread, heq⟩ := Option.map_eq_some_iff.1 h
    obtain ⟨rfl, rfl⟩ := Prod.mk.inj heq
    obtain ⟨ds, hds, heq⟩ := digits_of_readNumber hread
    exact ⟨ds, .plain hds, heq⟩

theorem FigureText.head?_not_blank {text : List Char} (h : FigureText f n text) :
    ∀ c ∈ (text ++ rest).head?, Text.isBlank c = false := by
  intro c hc
  cases h with
  | plain h => exact Text.isBlank_of_isDigit (h.isDigit_head? c hc)
  | minus hf h => exact Option.some.inj hc ▸ by decide
  | plus hf h => exact Option.some.inj hc ▸ by decide

theorem Figured.readFigure_eq (h : Figured f n rest cs) (hrest : Stops rest) :
    readFigure f cs = some (n, rest) := by
  obtain ⟨hblanks, htext⟩ := h
  unfold readFigure
  rw [Text.trimStart_append hblanks htext.head?_not_blank]
  cases htext with
  | minus hf h =>
    simp only [List.cons_append, if_pos hf, h.readNumber_eq hrest, Option.map_some]
  | plus hf h =>
    simp only [List.cons_append, if_pos hf, h.readNumber_eq hrest, Option.map_some]
  | plain h =>
    -- a digit in front is no sign
    dsimp only
    split
    · next heq => exact absurd (h.isDigit_head? '-' (congrArg List.head? heq)) (by decide)
    · next heq => exact absurd (h.isDigit_head? '+' (congrArg List.head? heq)) (by decide)
    · rw [h.readNumber_eq hrest]
      rfl

end

/-! ## The pattern of pipelines -/

theorem readPattern_isoPattern :
    readPattern isoPattern =
      [.zero .year, .literal ['-'], .zero .month, .literal ['-'], .zero .day] := by
  decide

section

variable {f : Figure} {fields noted : Fields} {cs rest : List Char}

theorem takePart_zero :
    takePart (fields, cs) (.zero f) = some (noted, rest) ↔
      ∃ n, readFigure f cs = some (n, rest) ∧ noteFigure f n fields = some noted := by
  simp only [takePart, Part.zero, takeFigure, Option.bind_eq_bind, Option.bind_eq_some_iff,
    Option.pure_def, Option.some.injEq, Prod.exists, Prod.mk.injEq]
  constructor
  · rintro ⟨n, left, hread, noted', hnote, rfl, rfl⟩
    exact ⟨n, hread, hnote⟩
  · rintro ⟨n, hread, hnote⟩
    exact ⟨n, rest, hread, noted, hnote, rfl, rfl⟩

theorem takePart_literal {c : Char} :
    takePart (fields, cs) (.literal [c]) = some (noted, rest) ↔
      cs = c :: rest ∧ fields = noted := by
  cases cs with
  | nil => simp [takePart, dropLiteral]
  | cons d cs =>
    by_cases hc : c = d <;> simp [takePart, dropLiteral, hc, eq_comm, and_comm]

end

section

variable {y m k : Int} {d : Date} {fields : Fields}

theorem noteIn_new {low high n : Int} {field : Field} {before : Fields}
    (h : before.lookup field = none) :
    noteIn low high field n before = some fields ↔
      (low ≤ n ∧ n ≤ high) ∧ (field, n) :: before = fields := by
  simp [noteIn, note, h]

theorem noteFigure_year :
    noteFigure .year y [] = some fields ↔
      (-Int.pow 2 31 ≤ y ∧ y ≤ Int.pow 2 31 - 1) ∧ [(.year, y)] = fields :=
  noteIn_new rfl

theorem noteFigure_month :
    noteFigure .month m [(.year, y)] = some fields ↔
      (1 ≤ m ∧ m ≤ 12) ∧ [(.month, m), (.year, y)] = fields :=
  noteIn_new rfl

theorem noteFigure_day :
    noteFigure .day k [(.month, m), (.year, y)] = some fields ↔
      (1 ≤ k ∧ k ≤ 31) ∧ [(.day, k), (.month, m), (.year, y)] = fields :=
  noteIn_new rfl

theorem ofFields_iso :
    ofFields [(.day, k), (.month, m), (.year, y)] = some d ↔
      d.Valid ∧ y = d.year ∧ m = d.month ∧ k = d.day := by
  have hdetermine : determine [(.day, k), (.month, m), (.year, y)] = ofYmd? y m.toNat k.toNat := rfl
  have hagrees : agrees [(.day, k), (.month, m), (.year, y)] d = true ↔
      y = d.year ∧ m = d.month ∧ k = d.day := by
    simp only [agrees, List.all_cons, List.all_nil, isOfDate, fieldOf, Bool.not_true,
      Bool.false_or, Bool.and_true, Bool.and_eq_true, beq_iff_eq, Option.some.injEq]
    constructor
    · rintro ⟨hk, hm, hy⟩
      exact ⟨hy.symm, hm.symm, hk.symm⟩
    · rintro ⟨hy, hm, hk⟩
      exact ⟨hk.symm, hm.symm, hy.symm⟩
  rw [ofFields, Option.filter_eq_some_iff, hdetermine, ofYmd?_eq_some, hagrees]
  constructor
  · rintro ⟨⟨-, hvalid⟩, hfields⟩
    exact ⟨hvalid, hfields⟩
  · rintro ⟨hvalid, rfl, rfl, rfl⟩
    exact ⟨⟨rfl, hvalid⟩, rfl, rfl, rfl⟩

end

/-- The spellings of a date: the day, the month and the year, each of them behind some blanks, with
a hyphen right after the year and after the month. -/
def Spells (d : Date) (cs : List Char) : Prop :=
  ∃ c₁ c₂, Figured .year d.year ('-' :: c₁) cs ∧ Figured .month d.month ('-' :: c₂) c₁ ∧
    Figured .day d.day [] c₂

theorem stops_hyphen (rest : List Char) : Stops ('-' :: rest) := by
  intro c hc
  obtain rfl := Option.some.inj hc
  decide

theorem stops_nil : Stops [] := fun _ hc => nomatch hc

section

variable {d : Date} {cs : List Char}

theorem read_isoPattern :
    read isoPattern cs = some d ↔ d.Valid ∧
      ∃ c₁ c₂, readFigure .year cs = some (d.year, '-' :: c₁) ∧
        readFigure .month c₁ = some ((d.month : Int), '-' :: c₂) ∧
        readFigure .day c₂ = some ((d.day : Int), []) := by
  simp only [read, readPattern_isoPattern, List.foldlM_cons, List.foldlM_nil, Option.bind_eq_bind,
    Option.bind_eq_some_iff, Option.pure_def, Option.some.injEq, Prod.exists, takePart_zero,
    takePart_literal]
  constructor
  · rintro ⟨_, rest, ⟨_, _, ⟨y, hy, hyear⟩, _, c₁, ⟨rfl, rfl⟩, _, _, ⟨m, hm, hmonth⟩, _, c₂,
      ⟨rfl, rfl⟩, _, _, ⟨k, hk, hday⟩, heq⟩, hread⟩
    obtain ⟨rfl, rfl⟩ := Prod.mk.inj heq
    obtain ⟨-, rfl⟩ := noteFigure_year.1 hyear
    obtain ⟨-, rfl⟩ := noteFigure_month.1 hmonth
    obtain ⟨-, rfl⟩ := noteFigure_day.1 hday
    split at hread
    · next hrest =>
      obtain ⟨hvalid, rfl, rfl, rfl⟩ := ofFields_iso.1 hread
      obtain rfl := List.isEmpty_iff.1 hrest
      exact ⟨hvalid, c₁, c₂, hy, hm, hk⟩
    · cases hread
  · rintro ⟨hvalid, c₁, c₂, hyear, hmonth, hday⟩
    -- the fields of a valid date are in the ranges in which they are noted
    have hmin : minYear = -262143 := rfl
    have hmax : maxYear = 262142 := rfl
    have hfrom := hvalid.fromYear
    have hto := hvalid.toYear
    have hmonth₁ := hvalid.month
    have hday₁ := hvalid.day
    obtain ⟨hmonth₂, hday₂⟩ := hvalid.le
    have hpow : Int.pow 2 31 = 2147483648 := rfl
    exact ⟨_, _, ⟨_, _, ⟨_, hyear, noteFigure_year.2 ⟨by omega, rfl⟩⟩, _, _, ⟨rfl, rfl⟩, _, _,
      ⟨_, hmonth, noteFigure_month.2 ⟨by omega, rfl⟩⟩, _, _, ⟨rfl, rfl⟩, _, _,
      ⟨_, hday, noteFigure_day.2 ⟨by omega, rfl⟩⟩, rfl⟩,
      ofFields_iso.2 ⟨hvalid, rfl, rfl, rfl⟩⟩

/-- What the reader of pipelines takes. -/
theorem read_isoPattern_iff : read isoPattern cs = some d ↔ d.Valid ∧ Spells d cs := by
  rw [read_isoPattern]
  constructor
  · rintro ⟨hvalid, c₁, c₂, hyear, hmonth, hday⟩
    exact ⟨hvalid, c₁, c₂, figured_of_readFigure hyear, figured_of_readFigure hmonth,
      figured_of_readFigure hday⟩
  · rintro ⟨hvalid, c₁, c₂, hyear, hmonth, hday⟩
    exact ⟨hvalid, c₁, c₂, hyear.readFigure_eq (stops_hyphen c₁),
      hmonth.readFigure_eq (stops_hyphen c₂), hday.readFigure_eq stops_nil⟩

end

/-! ## What is written -/

theorem Digits.fill (width n : Nat) : Digits none n (fill width '0' (decimal n)) where
  some_digit h := Nat.toDigits_ne_nil (List.append_eq_nil_iff.1 h).2
  digits c hc := by
    rcases List.mem_append.1 hc with hc | hc
    · exact (List.mem_replicate.1 hc).2 ▸ by decide
    · exact List.all_eq_true.1 (all_isDigit_toDigits n) c hc
  width w hw := nomatch hw
  number := by
    rw [numberOf_eq, Date.fill, Nat.ofDigitChars_append, Nat.ofDigitChars_replicate_zero,
      Nat.mul_zero]
    exact Nat.ofDigitChars_toDigits (by decide) (by decide)

theorem figureText_writeYear (year : Int) : FigureText .year year (writeYear .zero year) := by
  unfold writeYear
  split
  · next hrange =>
    have hdigits := Digits.fill 4 year.toNat
    have hlength : (decimal year.toNat).length ≤ 4 :=
      (Nat.length_toDigits_le_iff (by decide) (by decide)).2 (by omega)
    have hplain : FigureText .year year.toNat (fill 4 '0' (decimal year.toNat)) :=
      .plain ⟨hdigits.some_digit, hdigits.digits, fun w hw => ?_, hdigits.number⟩
    · rwa [Int.toNat_of_nonneg hrange.1] at hplain
    · obtain rfl := Option.some.inj hw
      rw [fill, List.length_append, List.length_replicate]
      omega
  · dsimp only
    have hdigits := Digits.fill 4 year.natAbs
    split
    · next hneg =>
      have hminus := FigureText.minus (f := .year) (.inl rfl) hdigits
      rwa [show -(year.natAbs : Int) = year by omega] at hminus
    · next hpos =>
      have hplus := FigureText.plus (f := .year) (.inl rfl) hdigits
      rwa [show (year.natAbs : Int) = year by omega] at hplus

theorem digits_writePair {n : Nat} (hn : n < 100) : Digits (some 2) n (writePair .zero n) := by
  have hall : ∀ n < 100, writePair .zero n ≠ [] ∧ (writePair .zero n).all Char.isDigit = true ∧
      (writePair .zero n).length ≤ 2 ∧ numberOf (writePair .zero n) = n := by
    decide
  obtain ⟨hsome, hdigits, hwidth, hnumber⟩ := hall n hn
  exact ⟨hsome, List.all_eq_true.1 hdigits, fun w hw => Option.some.inj hw ▸ hwidth, hnumber⟩

theorem figured_of_text {f : Figure} {n : Int} {text : List Char} (h : FigureText f n text)
    (rest : List Char) : Figured f n rest (text ++ rest) :=
  show Figured f n rest ([] ++ (text ++ rest)) from .mk (fun _ hc => nomatch hc) h

section

variable {d e : Date}

theorem Valid.spells_iso (h : d.Valid) : Spells d d.iso.toList := by
  obtain ⟨hmonth, hday⟩ := h.le
  have hm : FigureText .month d.month (writePair .zero d.month) :=
    .plain (digits_writePair (by omega))
  have hk : FigureText .day d.day (writePair .zero d.day) := .plain (digits_writePair (by omega))
  have hlast := figured_of_text hk []
  rw [List.append_nil] at hlast
  refine ⟨_, _, ?_, figured_of_text hm _, hlast⟩
  rw [iso, String.toList_ofList, List.append_assoc, List.cons_append]
  exact figured_of_text (figureText_writeYear d.year) _

/-- What is written for a date is read as that date. -/
theorem Valid.readIso_iso (h : d.Valid) : readIso d.iso = some d :=
  read_isoPattern_iff.2 ⟨h, h.spells_iso⟩

theorem Valid.iso_inj (hd : d.Valid) (he : e.Valid) : d.iso = e.iso ↔ d = e := by
  refine ⟨fun h => ?_, congrArg iso⟩
  have hread := hd.readIso_iso
  rw [h, he.readIso_iso] at hread
  exact (Option.some.inj hread).symm

theorem write_isoPattern (d : Date) : d.write isoPattern = some d.iso := by
  rw [write, readPattern_isoPattern]
  simp [writePart, Part.zero, writeFigure, iso]

end

end Intake.Date
