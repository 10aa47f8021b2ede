import Intake.Text.Blank
/-!
# Date patterns

A pattern is a text with directives such as `%d`; between `%` and the letter may stand a padding:
`-` for none, `0` for zeros, `_` for blanks.  It reads as a list of parts.  A directive that does
not exist, or that takes no padding and has one, is an invalid part; the rest is still read.
-/

namespace Intake.Date

inductive Padding where
  | none
  | zero
  | blank
deriving DecidableEq, Repr

/-- Parts of a date or a time that are numbers. -/
inductive Figure where
  | year
  | century
  | yearOfCentury
  | isoYear
  | isoYearOfCentury
  | quarter
  | month
  | day
  | weekFromSunday
  | weekFromMonday
  | isoWeek
  | daysFromSunday
  | weekdayFromMonday
  | ordinal
  | hour
  | hourOfHalf
  | minute
  | second
  | nanosecond
  | timestamp
deriving DecidableEq, Repr

/-- Parts of a date or a time that are not one number.  A fraction of a second has its digits,
if they are fixed, and a point in front of it or not. -/
inductive Wording where
  | shortMonth
  | longMonth
  | shortWeekday
  | longWeekday
  | half
  | fraction (digits : Option Nat) (point : Bool)
  | zoneName
  | offset
  | offsetOrZulu
  | instant
deriving DecidableEq, Repr

inductive Part where
  | literal (text : List Char)
  | blanks (text : List Char)
  | figure (f : Figure) (padding : Padding)
  | wording (w : Wording)
  | invalid
deriving DecidableEq, Repr

namespace Part

def zero (f : Figure) : Part := figure f .zero
def blank (f : Figure) : Part := figure f .blank
def plain (f : Figure) : Part := figure f .none

/-- Parts with a literal character between neighbours. -/
def separated (c : Char) (parts : List Part) : List Part := parts.intersperse (literal [c])

def clock : List Part := separated ':' [zero .hour, zero .minute, zero .second]

def americanDate : List Part := separated '/' [zero .month, zero .day, zero .yearOfCentury]

/-- The parts that one letter stands for. -/
def ofLetter : Char → List Part
  | 'A' => [wording .longWeekday]
  | 'B' => [wording .longMonth]
  | 'C' => [zero .century]
  | 'D' => americanDate
  | 'F' => separated '-' [zero .year, zero .month, zero .day]
  | 'G' => [zero .isoYear]
  | 'H' => [zero .hour]
  | 'I' => [zero .hourOfHalf]
  | 'M' => [zero .minute]
  | 'P' => [wording .half]
  | 'R' => separated ':' [zero .hour, zero .minute]
  | 'S' => [zero .second]
  | 'T' => clock
  | 'U' => [zero .weekFromSunday]
  | 'V' => [zero .isoWeek]
  | 'W' => [zero .weekFromMonday]
  | 'X' => clock
  | 'Y' => [zero .year]
  | 'Z' => [wording .zoneName]
  | 'a' => [wording .shortWeekday]
  | 'b' => [wording .shortMonth]
  | 'c' =>
    [wording .shortWeekday, blanks [' '], wording .shortMonth, blanks [' '], blank .day,
      blanks [' ']] ++ clock ++ [blanks [' '], zero .year]
  | 'd' => [zero .day]
  | 'e' => [blank .day]
  | 'f' => [zero .nanosecond]
  | 'g' => [zero .isoYearOfCentury]
  | 'h' => [wording .shortMonth]
  | 'j' => [zero .ordinal]
  | 'k' => [blank .hour]
  | 'l' => [blank .hourOfHalf]
  | 'm' => [zero .month]
  | 'n' => [blanks ['\n']]
  | 'p' => [wording .half]
  | 'q' => [plain .quarter]
  | 'r' =>
    separated ':' [zero .hourOfHalf, zero .minute, zero .second] ++ [blanks [' '], wording .half]
  | 's' => [plain .timestamp]
  | 't' => [blanks ['\t']]
  | 'u' => [plain .weekdayFromMonday]
  | 'v' => separated '-' [blank .day, wording .shortMonth, zero .year]
  | 'w' => [plain .daysFromSunday]
  | 'x' => americanDate
  | 'y' => [zero .yearOfCentury]
  | 'z' => [wording .offset]
  | '+' => [wording .instant]
  | '%' => [literal ['%']]
  | _ => [invalid]

/-- The number of digits of a fraction of fixed length. -/
def fractionDigits? : Char → Option Nat
  | '3' => some 3
  | '6' => some 6
  | '9' => some 9
  | _ => none

/-- The parts of a directive, from the character after the `%` and its padding on, and how many
characters after it belong to it. -/
def directive (c : Char) (rest : List Char) : List Part × Nat :=
  match c, rest with
  | ':', ':' :: ':' :: 'z' :: _ => ([wording .offset], 3)
  | ':', ':' :: 'z' :: _ => ([wording .offset], 2)
  | ':', 'z' :: _ => ([wording .offset], 1)
  | ':', _ => ([invalid], 0)
  | '.', 'f' :: _ => ([wording (.fraction none true)], 1)
  | '.', d :: rest =>
    match fractionDigits? d, rest with
    | some n, 'f' :: _ => ([wording (.fraction (some n) true)], 2)
    | some _, _ :: _ => ([invalid], 2)
    | _, _ => ([invalid], 1)
  | '.', [] => ([invalid], 0)
  | c, rest =>
    match fractionDigits? c, rest with
    | some n, 'f' :: _ => ([wording (.fraction (some n) false)], 1)
    | some _, _ :: _ => ([invalid], 1)
    | some _, [] => ([invalid], 0)
    | none, _ => (ofLetter c, 0)

/-- A padding replaces the one of a single number and suits nothing else. -/
def pad (p : Padding) : List Part → List Part
  | [figure f _] => [figure f p]
  | parts => invalid :: parts.drop 1

def paddingOf? : Char → Option Padding
  | '-' => some .none
  | '0' => some .zero
  | '_' => some .blank
  | _ => none

/-- The parts of a directive whose `%` has been read, and its length after the `%`. -/
def ofDirective : List Char → List Part × Nat
  | [] => ([invalid], 0)
  | c :: cs =>
    match paddingOf? c, cs with
    | some _, [] => ([invalid], 1)
    | some p, d :: rest =>
      let (parts, n) := directive d rest
      (pad p parts, n + 2)
    | none, _ =>
      match c, cs with
      | '#', 'z' :: _ => ([wording .offsetOrZulu], 2)
      | '#', _ :: _ => ([invalid], 2)
      | '#', [] => ([invalid], 1)
      | c, cs =>
        let (parts, n) := directive c cs
        (parts, n + 1)

/-- Whether a character is part of a literal run. -/
def isPlain (c : Char) : Bool := c != '%' && !Text.isBlank c

/-- Adds a character to a run of its own sort at the front of the parts. -/
def addChar (c : Char) (parts : List Part) : List Part :=
  if Text.isBlank c then
    match parts with
    | blanks text :: rest => blanks (c :: text) :: rest
    | parts => blanks [c] :: parts
  else
    match parts with
    | literal text :: rest => literal (c :: text) :: rest
    | parts => literal [c] :: parts

/-- The parts of a pattern; `skip` characters belong to a directive already read. -/
def readSkipping : Nat → List Char → List Part
  | _, [] => []
  | n + 1, _ :: cs => readSkipping n cs
  | 0, '%' :: cs =>
    let (parts, n) := ofDirective cs
    parts ++ readSkipping n cs
  | 0, c :: cs => addChar c (readSkipping 0 cs)

end Part

/-- The parts of a pattern. -/
def readPattern (pattern : String) : List Part := Part.readSkipping 0 pattern.toList

/-- Whether every directive of a pattern exists. -/
def isPattern (pattern : String) : Bool := !(readPattern pattern).contains .invalid

end Intake.Date
