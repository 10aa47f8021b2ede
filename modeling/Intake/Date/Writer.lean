import Intake.Date.Calendar
import Intake.Date.Pattern
/-!
# Writing dates

A date is written by writing each part of a pattern.  A plain date has no time of day and no
offset, so a pattern that asks for one writes nothing, nor does a pattern with an invalid part.
-/

namespace Intake.Date

def monthNames : List String :=
  ["January", "February", "March", "April", "May", "June", "July", "August", "September",
    "October", "November", "December"]

/-- From Monday on. -/
def weekdayNames : List String :=
  ["Monday", "Tuesday", "Wednesday", "Thursday", "Friday", "Saturday", "Sunday"]

/-- The letters of the name of a place in a list of names. -/
def nameAt (names : List String) (i : Nat) : List Char := (names[i]?.getD "").toList

def decimal (n : Nat) : List Char := Nat.toDigits 10 n

/-- Fills a text up at the front to a width. -/
def fill (width : Nat) (c : Char) (cs : List Char) : List Char :=
  List.replicate (width - cs.length) c ++ cs

/-- A number in a width, padded. -/
def writeNumber (width : Nat) (p : Padding) (n : Nat) : List Char :=
  match p with
  | .none => decimal n
  | .zero => fill width '0' (decimal n)
  | .blank => fill width ' ' (decimal n)

/-- The tens and the ones of a number below 256, of which only tens above 9 are unusual: they
stand for the characters that follow the digits. -/
def writePair (p : Padding) (n : Nat) : List Char :=
  let ones := Char.ofNat ('0'.toNat + n % 10)
  match n / 10, p with
  | 0, .none => [ones]
  | 0, .blank => [' ', ones]
  | tens, _ => [Char.ofNat ('0'.toNat + tens), ones]

/-- A year has four digits or more, and a sign unless it is from 0 to 9999. -/
def writeYear (p : Padding) (year : Int) : List Char :=
  if 0 ≤ year ∧ year < 10000 then writeNumber 4 p year.toNat
  else
    let sign := if year < 0 then '-' else '+'
    let digits := decimal year.natAbs
    match p with
    | .none => sign :: digits
    | .zero => sign :: fill 4 '0' digits
    | .blank => fill 5 ' ' (sign :: digits)

/-- A number of a date, if it is one that a plain date has. -/
def writeFigure (d : Date) (p : Padding) : Figure → Option (List Char)
  | .year => some (writeYear p d.year)
  | .century => some (writePair p (d.year / 100 % 256).toNat)
  | .yearOfCentury => some (writePair p (d.year % 100).toNat)
  | .isoYear => some (writeYear p d.isoWeek.1)
  | .isoYearOfCentury => some (writePair p (d.isoWeek.1 % 100).toNat)
  | .quarter => some (decimal d.quarter)
  | .month => some (writePair p d.month)
  | .day => some (writePair p d.day)
  | .weekFromSunday => some (writePair p (d.weekFrom 6))
  | .weekFromMonday => some (writePair p (d.weekFrom 0))
  | .isoWeek => some (writePair p d.isoWeek.2)
  | .daysFromSunday => some (decimal (daysSince d.weekday 6))
  | .weekdayFromMonday => some (decimal (d.weekday + 1))
  | .ordinal => some (writeNumber 3 p d.ordinal)
  | .hour | .hourOfHalf | .minute | .second | .nanosecond | .timestamp => none

/-- A name of a date, if it is one that a plain date has. -/
def writeWording (d : Date) : Wording → Option (List Char)
  | .shortMonth => some ((nameAt monthNames (d.month - 1)).take 3)
  | .longMonth => some (nameAt monthNames (d.month - 1))
  | .shortWeekday => some ((nameAt weekdayNames d.weekday).take 3)
  | .longWeekday => some (nameAt weekdayNames d.weekday)
  | .half | .fraction .. | .zoneName | .offset | .offsetOrZulu | .instant => none

def writePart (d : Date) : Part → Option (List Char)
  | .literal text => some text
  | .blanks text => some text
  | .figure f p => writeFigure d p f
  | .wording w => writeWording d w
  | .invalid => none

/-- The text of a date in a pattern. -/
def write (d : Date) (pattern : String) : Option String := do
  return String.ofList (← (readPattern pattern).mapM (writePart d)).flatten

/-- The pattern of dates inside a pipeline. -/
def isoPattern : String := "%Y-%m-%d"

/-- The text of a date in the pattern of pipelines. -/
def iso (d : Date) : String :=
  String.ofList
    (writeYear .zero d.year ++ '-' :: writePair .zero d.month ++ '-' :: writePair .zero d.day)

end Intake.Date
