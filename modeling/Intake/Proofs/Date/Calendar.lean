import Intake.Date.Reader
/-!
# Dates of the calendar

A date is `Valid` if its year is in range and its month has its day.  Every date that is read is
valid, whatever the pattern and whichever fields have determined it:

    read pattern cs = some d → d.Valid        readTimestamp cs = some d → d.Valid
-/

namespace Intake.Date

/-- A day of the calendar. -/
structure Valid (d : Date) : Prop where
  fromYear : minYear ≤ d.year
  toYear : d.year ≤ maxYear
  month : 1 ≤ d.month
  day : 1 ≤ d.day
  length : d.day ≤ ((monthLengths d.year)[d.month - 1]?).getD 0

section

variable {d : Date} {year : Int} {month day : Nat}

theorem ofYmd?_eq_some : ofYmd? year month day = some d ↔ d = ⟨year, month, day⟩ ∧ d.Valid := by
  unfold ofYmd?
  constructor
  · intro h
    split at h
    · next hvalid =>
      obtain rfl := Option.some.inj h
      obtain ⟨hfrom, hto, hmonth, hday, hlength⟩ := hvalid
      exact ⟨rfl, hfrom, hto, hmonth, hday, hlength⟩
    · cases h
  · rintro ⟨rfl, h⟩
    exact if_pos ⟨h.fromYear, h.toYear, h.month, h.day, h.length⟩

/-- There are twelve months, and none is longer than 31 days. -/
theorem Valid.le (h : d.Valid) : d.month ≤ 12 ∧ d.day ≤ 31 := by
  have hday := h.day
  have hlength := h.length
  have htwelve : (monthLengths d.year).length = 12 := rfl
  refine ⟨Nat.le_of_not_lt fun hlt => ?_, ?_⟩
  · rw [List.getElem?_eq_none (by omega)] at hlength
    exact absurd hlength (Nat.not_le.2 hday)
  · have hall : ∀ length ∈ monthLengths d.year, length ≤ 31 := by
      unfold monthLengths
      cases isLeap d.year <;> decide
    cases hget : (monthLengths d.year)[d.month - 1]? with
    | none =>
      rw [hget] at hlength
      exact absurd hlength (Nat.not_le.2 hday)
    | some length =>
      rw [hget] at hlength
      exact Nat.le_trans hlength (hall length (List.mem_of_getElem? hget))

/-! ## Days of the year -/

theorem splitOrdinal_bounds (lengths : List Nat) (month : Nat) {n : Nat} (hpos : 1 ≤ n)
    (hn : n ≤ lengths.foldr (· + ·) 0) :
    month ≤ (splitOrdinal month lengths n).1 ∧ 1 ≤ (splitOrdinal month lengths n).2 ∧
      (splitOrdinal month lengths n).2 ≤
        (lengths[(splitOrdinal month lengths n).1 - month]?).getD 0 := by
  induction lengths generalizing month n with
  | nil => exact absurd hn (Nat.not_le.2 hpos)
  | cons length rest ih =>
    rw [splitOrdinal]
    split
    · next hle => exact ⟨Nat.le_refl _, hpos, by simpa using hle⟩
    · next hlt =>
      rw [List.foldr_cons] at hn
      obtain ⟨hmonth, hday, hle⟩ := ih (month + 1) (n := n - length) (by omega) (by omega)
      refine ⟨by omega, hday, ?_⟩
      rw [List.getElem?_cons, if_neg (by omega), Nat.sub_sub]
      exact hle

theorem sum_monthLengths (year : Int) :
    (monthLengths year).foldr (· + ·) 0 = daysInYear year := by
  unfold monthLengths daysInYear
  cases isLeap year <;> rfl

theorem valid_of_ofOrdinal? {n : Nat} (h : ofOrdinal? year n = some d) : d.Valid := by
  unfold ofOrdinal? at h
  split at h
  · next hrange =>
    obtain ⟨hfrom, hto, hpos, hn⟩ := hrange
    obtain rfl := Option.some.inj h
    obtain ⟨hmonth, hday, hle⟩ :=
      splitOrdinal_bounds (monthLengths year) 1 hpos (sum_monthLengths year ▸ hn)
    exact ⟨hfrom, hto, hmonth, hday, hle⟩
  · cases h

theorem valid_of_ofWeek? {week weekday start : Nat} (h : ofWeek? year week weekday start = some d) :
    d.Valid := by
  unfold ofWeek? at h
  dsimp only at h
  split at h
  · exact valid_of_ofOrdinal? h
  · cases h

theorem valid_of_ofIsoWeek? {week weekday : Nat} (h : ofIsoWeek? year week weekday = some d) :
    d.Valid := by
  unfold ofIsoWeek? at h
  dsimp only at h
  split at h
  · split at h
    · exact valid_of_ofOrdinal? h
    · split at h
      · exact valid_of_ofOrdinal? h
      · exact valid_of_ofOrdinal? h
  · cases h

end

/-! ## What is read -/

section

variable {d : Date}

theorem valid_of_determine {fields : Fields} (h : determine fields = some d) : d.Valid := by
  unfold determine at h
  simp only [Option.bind_eq_bind, Option.bind_eq_some_iff] at h
  obtain ⟨year, -, isoYear, -, h⟩ := h
  split at h
  · exact (ofYmd?_eq_some.1 h).2
  · exact valid_of_ofOrdinal? h
  · split at h
    · exact valid_of_ofWeek? h
    · exact valid_of_ofWeek? h
    · split at h
      · exact valid_of_ofIsoWeek? h
      · cases h

theorem valid_of_read {pattern : String} {cs : List Char} (h : read pattern cs = some d) :
    d.Valid := by
  unfold read at h
  simp only [Option.bind_eq_bind, Option.bind_eq_some_iff] at h
  obtain ⟨⟨fields, rest⟩, -, h⟩ := h
  split at h
  · exact valid_of_determine (Option.eq_some_of_filter_eq_some h)
  · cases h

theorem valid_of_readTimestamp {cs : List Char} (h : readTimestamp cs = some d) : d.Valid := by
  unfold readTimestamp at h
  simp only [Option.bind_eq_bind, Option.bind_eq_some_iff] at h
  obtain ⟨_, -, _, -, _, -, _, -, _, -, _, -, _, -, _, -, _, -, _, -, _, -, _, -, _, -, h⟩ := h
  split at h
  · exact (ofYmd?_eq_some.1 h).2
  · cases h

end

end Intake.Date
