/-!
# Calendar dates

Dates of the proleptic Gregorian calendar, from the year `-262143` to the year `262142`, with the
day of the year, the day of the week and the three ways of counting weeks: from the first Sunday,
from the first Monday, and by ISO weeks, which belong to the year that has their Thursday.
-/

namespace Intake

structure Date where
  year : Int
  month : Nat
  day : Nat
deriving DecidableEq, Repr

namespace Date

def minYear : Int := -262143
def maxYear : Int := 262142

def isLeap (year : Int) : Bool := year % 4 == 0 && (year % 100 != 0 || year % 400 == 0)

def monthLengths (year : Int) : List Nat :=
  [31, if isLeap year then 29 else 28, 31, 30, 31, 30, 31, 31, 30, 31, 30, 31]

def daysInYear (year : Int) : Nat := if isLeap year then 366 else 365

/-- The date with a year, a month and a day, if there is one. -/
def ofYmd? (year : Int) (month day : Nat) : Option Date :=
  if minYear ≤ year ∧ year ≤ maxYear ∧ 1 ≤ month ∧ 1 ≤ day
      ∧ day ≤ ((monthLengths year)[month - 1]?).getD 0 then
    some ⟨year, month, day⟩
  else none

/-- Finds the month of a day counted from the start of a month. -/
def splitOrdinal (month : Nat) : List Nat → Nat → Nat × Nat
  | [], n => (month, n)
  | length :: rest, n =>
    if n ≤ length then (month, n) else splitOrdinal (month + 1) rest (n - length)

/-- The date with a day of the year, counted from 1, if there is one. -/
def ofOrdinal? (year : Int) (ordinal : Nat) : Option Date :=
  if minYear ≤ year ∧ year ≤ maxYear ∧ 1 ≤ ordinal ∧ ordinal ≤ daysInYear year then
    let (month, day) := splitOrdinal 1 (monthLengths year) ordinal
    some ⟨year, month, day⟩
  else none

/-- The day of the year, counted from 1. -/
def ordinal (d : Date) : Nat := ((monthLengths d.year).take (d.month - 1)).foldl (· + ·) 0 + d.day

/-- Days from the first of January of the year 1 to the first of January of a year. -/
def daysBeforeYear (year : Int) : Int :=
  let y := year - 1
  365 * y + y / 4 - y / 100 + y / 400

/-- The day of the week of the first of January, counted from Monday as 0. -/
def weekdayOfNewYear (year : Int) : Nat := (daysBeforeYear year % 7).toNat

/-- The day of the week, counted from Monday as 0. -/
def weekday (d : Date) : Nat := (weekdayOfNewYear d.year + d.ordinal - 1) % 7

/-- Days since the last day `start` of the week, both counted from Monday as 0. -/
def daysSince (weekday start : Nat) : Nat := (weekday + 7 - start) % 7

/-- The week of the year when weeks begin with `start`; days before the first one are in
week 0. -/
def weekFrom (d : Date) (start : Nat) : Nat :=
  (d.ordinal + 6 - daysSince d.weekday start) / 7

/-- The quarter of the year. -/
def quarter (d : Date) : Nat := (d.month - 1) / 3 + 1

/-- The number of ISO weeks of a year. -/
def isoWeeks (year : Int) : Nat :=
  let first := weekdayOfNewYear year
  if first = 3 ∨ (first = 2 ∧ isLeap year) then 53 else 52

/-- The year and the number of the ISO week of a date. -/
def isoWeek (d : Date) : Int × Nat :=
  let week := (d.ordinal + 9 - d.weekday) / 7
  if week = 0 then (d.year - 1, isoWeeks (d.year - 1))
  else if isoWeeks d.year < week then (d.year + 1, 1)
  else (d.year, week)

/-- The date with a day of an ISO week, if there is one. -/
def ofIsoWeek? (year : Int) (week weekday : Nat) : Option Date :=
  if 1 ≤ week ∧ week ≤ isoWeeks year then
    let fourth := (weekdayOfNewYear year + 3) % 7
    let ordinal : Int := 7 * week + weekday - fourth - 3
    if ordinal < 1 then ofOrdinal? (year - 1) (ordinal + daysInYear (year - 1)).toNat
    else if (daysInYear year : Int) < ordinal then
      ofOrdinal? (year + 1) (ordinal - daysInYear year).toNat
    else ofOrdinal? year ordinal.toNat
  else none

/-- The date with a day of a week counted from the first day `start`, if there is one. -/
def ofWeek? (year : Int) (week weekday start : Nat) : Option Date :=
  let firstStart : Int := 1 + daysSince start (weekdayOfNewYear year)
  let ordinal : Int := firstStart + ((week : Int) - 1) * 7 + daysSince weekday start
  if week ≤ 53 ∧ 0 < ordinal then ofOrdinal? year ordinal.toNat else none

/-- The order of time. -/
def le (a b : Date) : Bool :=
  a.year < b.year ||
    (a.year == b.year && (a.month < b.month || (a.month == b.month && a.day ≤ b.day)))

end Date

end Intake
