import Intake.Date.Writer
/-!
# Reading dates

Reading follows the parts of a pattern.  Every number and name that is read is noted under its
field; a field noted twice must be noted alike, and each has a range.  The fields must then
determine a date - by month and day, by day of the year, by a week and a weekday - and every
other field must agree with it.  Fields of the time of day are noted and checked in range, but
say nothing about the date.

Blanks are skipped before a number.  A year with a sign takes all digits that follow; any other
number takes at most the digits of its width.
-/

namespace Intake.Date

inductive Field where
  | year
  | century
  | yearOfCentury
  | isoYear
  | isoYearOfCentury
  | quarter
  | month
  | day
  | weekFromSunday
  | weekFromMonday
  | isoWeek
  | weekday
  | ordinal
  | half
  | hourOfHalf
  | minute
  | second
  | nanosecond
  | timestamp
  | offset
deriving DecidableEq, Repr

abbrev Fields := List (Field × Int)

/-- Notes a field; a field noted before must have the same number. -/
def note (field : Field) (n : Int) (fields : Fields) : Option Fields :=
  match fields.lookup field with
  | none => some ((field, n) :: fields)
  | some m => if m = n then some fields else none

/-- Notes a field whose number must be in a range. -/
def noteIn (low high : Int) (field : Field) (n : Int) (fields : Fields) : Option Fields :=
  if low ≤ n ∧ n ≤ high then note field n fields else none

/-- Notes the number that was read for a figure. -/
def noteFigure (f : Figure) (n : Int) (fields : Fields) : Option Fields :=
  match f with
  | .year => noteIn (-Int.pow 2 31) (Int.pow 2 31 - 1) .year n fields
  | .century => noteIn 0 99 .century n fields
  | .yearOfCentury => noteIn 0 99 .yearOfCentury n fields
  | .isoYear => noteIn (-Int.pow 2 31) (Int.pow 2 31 - 1) .isoYear n fields
  | .isoYearOfCentury => noteIn 0 99 .isoYearOfCentury n fields
  | .quarter => noteIn 1 4 .quarter n fields
  | .month => noteIn 1 12 .month n fields
  | .day => noteIn 1 31 .day n fields
  | .weekFromSunday => noteIn 0 53 .weekFromSunday n fields
  | .weekFromMonday => noteIn 0 53 .weekFromMonday n fields
  | .isoWeek => noteIn 1 53 .isoWeek n fields
  | .daysFromSunday => if n ≤ 6 then note .weekday ((n + 6) % 7) fields else none
  | .weekdayFromMonday => if 1 ≤ n ∧ n ≤ 7 then note .weekday (n - 1) fields else none
  | .ordinal => noteIn 1 366 .ordinal n fields
  | .hour => do
    let fields ← noteIn 0 1 .half (n / 12) fields
    note .hourOfHalf (n % 12) fields
  | .hourOfHalf => if 1 ≤ n ∧ n ≤ 12 then note .hourOfHalf (n % 12) fields else none
  | .minute => noteIn 0 59 .minute n fields
  | .second => noteIn 0 60 .second n fields
  | .nanosecond => noteIn 0 999999999 .nanosecond n fields
  | .timestamp => noteIn 0 (Int.pow 2 63 - 1) .timestamp n fields

/-- The most digits of a number without a sign. -/
def widthOf : Figure → Option Nat
  | .year | .isoYear => some 4
  | .quarter | .daysFromSunday | .weekdayFromMonday => some 1
  | .ordinal => some 3
  | .nanosecond => some 9
  | .timestamp => none
  | _ => some 2

def numberOf (ds : List Char) : Nat :=
  ds.foldl (fun n c => n * 10 + (c.toNat - '0'.toNat)) 0

/-- A number of at least one digit and at most `width` digits, if that is limited. -/
def readNumber (width : Option Nat) (cs : List Char) : Option (Nat × List Char) :=
  let run := cs.takeWhile Char.isDigit
  let ds := (width.map run.take).getD run
  if ds.isEmpty then none else some (numberOf ds, cs.drop ds.length)

/-- A number of exactly `width` digits. -/
def readExactly (width : Nat) (cs : List Char) : Option (Nat × List Char) :=
  if width ≤ (cs.takeWhile Char.isDigit).length then
    some (numberOf (cs.take width), cs.drop width)
  else none

/-- The number of a figure. -/
def readFigure (f : Figure) (cs : List Char) : Option (Int × List Char) :=
  let cs := Text.trimStart cs
  let signed := f = .year ∨ f = .isoYear
  match cs with
  | '-' :: rest =>
    if signed then (readNumber none rest).map fun (n, rest) => (-(n : Int), rest) else none
  | '+' :: rest =>
    if signed then (readNumber none rest).map fun (n, rest) => ((n : Int), rest) else none
  | cs => (readNumber (widthOf f) cs).map fun (n, rest) => ((n : Int), rest)

/-- Drops a word at the start of a text, in whichever case; nothing is left if it is not
there. -/
def dropWord : List Char → List Char → Option (List Char)
  | [], cs => some cs
  | w :: word, c :: cs => if w.toLower = c.toLower then dropWord word cs else none
  | _ :: _, [] => none

/-- The place of the name that a text starts with, by its first three letters; if `long`, the
other letters of the name are taken too, where they follow. -/
def readName (names : List String) (long : Bool) (cs : List Char) : Option (Nat × List Char) :=
  names.zipIdx.findSome? fun (name, i) => do
    let rest ← dropWord (name.toList.take 3) cs
    let beyond := if long then dropWord (name.toList.drop 3) rest else none
    return (i, beyond.getD rest)

/-- Skips colons and blanks. -/
def skipColons (cs : List Char) : List Char := cs.dropWhile fun c => c == ':' || Text.isBlank c

/-- An offset in seconds: a sign, two digits of hours, what `skip` allows between, two digits of
minutes.  `zulu` allows the letter Z for none, `short` leaving out the minutes. -/
def readOffset (skip : List Char → Option (List Char)) (zulu short : Bool) (cs : List Char) :
    Option (Int × List Char) :=
  match cs with
  | [] => none
  | c :: rest =>
    if zulu ∧ (c = 'Z' ∨ c = 'z') then some (0, rest)
    else do
      let negative ← if c = '+' then some false else if c = '-' ∨ c = '−' then some true else none
      let (hours, rest) ← readExactly 2 rest
      let rest ← skip rest
      let (minutes, rest) ←
        match readExactly 2 rest with
        | some (m, rest) => if m < 60 then some (m, rest) else none
        | none => if short ∧ rest.isEmpty then some (0, rest) else none
      let seconds : Int := hours * 3600 + minutes * 60
      return (if negative then -seconds else seconds, rest)

/-- A fraction of a second of one to nine digits, in nanoseconds; digits beyond are skipped. -/
def readFraction (cs : List Char) : Option (Nat × List Char) := do
  let (n, rest) ← readNumber (some 9) cs
  let digits := cs.length - rest.length
  return (n * Nat.pow 10 (9 - digits), rest.dropWhile Char.isDigit)

/-- Notes a fraction of a second. -/
def noteFraction (fields : Fields) (r : Nat × List Char) : Option (Fields × List Char) := do
  return (← note .nanosecond r.1 fields, r.2)

/-- Reads the number of a figure and notes it. -/
def takeFigure (f : Figure) (fields : Fields) (cs : List Char) : Option (Fields × List Char) := do
  let (n, rest) ← readFigure f cs
  return (← noteFigure f n fields, rest)

def takeChar (c : Char) : List Char → Option (List Char)
  | d :: rest => if c = d then some rest else none
  | [] => none

/-- The letter or the blank between a date and a time. -/
def takeTimeMark : List Char → Option (List Char)
  | c :: rest => if c = 't' ∨ c = 'T' ∨ c = ' ' then some rest else none
  | [] => none

/-- A fraction of a second, if a point follows. -/
def takeFraction (digits : Option Nat) (fields : Fields) (cs : List Char) :
    Option (Fields × List Char) :=
  match cs with
  | '.' :: rest =>
    match digits with
    | none => (readFraction rest).bind (noteFraction fields)
    | some n =>
      (readExactly n rest).bind fun (v, rest) => noteFraction fields (v * Nat.pow 10 (9 - n), rest)
  | cs => some (fields, cs)

/-- A date, a time and an offset, with blanks allowed before the marks between them. -/
def takeInstant (fields : Fields) (cs : List Char) : Option (Fields × List Char) := do
  let (fields, cs) ← takeFigure .year fields cs
  let (fields, cs) ← takeFigure .month fields (← takeChar '-' (Text.trimStart cs))
  let (fields, cs) ← takeFigure .day fields (← takeChar '-' (Text.trimStart cs))
  let (fields, cs) ← takeFigure .hour fields (← takeTimeMark cs)
  let (fields, cs) ← takeFigure .minute fields (← takeChar ':' (Text.trimStart cs))
  let (fields, cs) ← takeFigure .second fields (← takeChar ':' (Text.trimStart cs))
  let (fields, cs) ← takeFraction none fields cs
  let cs := Text.trimStart cs
  let (offset, cs) ←
    match dropWord ['U', 'T', 'C'] cs with
    | some rest => some (0, rest)
    | none => readOffset (some ∘ skipColons) true false cs
  return (← note .offset offset fields, cs)

/-- Reads one wording and notes it. -/
def takeWording (w : Wording) (fields : Fields) (cs : List Char) : Option (Fields × List Char) :=
  match w with
  | .shortMonth => do
    let (i, rest) ← readName monthNames false cs
    return (← note .month (i + 1) fields, rest)
  | .longMonth => do
    let (i, rest) ← readName monthNames true cs
    return (← note .month (i + 1) fields, rest)
  | .shortWeekday => do
    let (i, rest) ← readName weekdayNames false cs
    return (← note .weekday i fields, rest)
  | .longWeekday => do
    let (i, rest) ← readName weekdayNames true cs
    return (← note .weekday i fields, rest)
  | .half =>
    match dropWord ['a', 'm'] cs, dropWord ['p', 'm'] cs with
    | some rest, _ => do return (← note .half 0 fields, rest)
    | none, some rest => do return (← note .half 1 fields, rest)
    | none, none => none
  | .fraction digits true => takeFraction digits fields cs
  | .fraction digits false => do
    let n := digits.getD 9
    let (v, rest) ← readExactly n cs
    noteFraction fields (v * Nat.pow 10 (9 - n), rest)
  | .zoneName => some (fields, cs.dropWhile (! Text.isBlank ·))
  | .offset => do
    let (offset, rest) ← readOffset (some ∘ skipColons) false false (Text.trimStart cs)
    return (← note .offset offset fields, rest)
  | .offsetOrZulu => do
    let (offset, rest) ← readOffset (some ∘ skipColons) true true (Text.trimStart cs)
    return (← note .offset offset fields, rest)
  | .instant => takeInstant fields cs

/-- Drops a literal text. -/
def dropLiteral : List Char → List Char → Option (List Char)
  | [], cs => some cs
  | w :: word, c :: cs => if w = c then dropLiteral word cs else none
  | _ :: _, [] => none

/-- Reads one part of a pattern. -/
def takePart (state : Fields × List Char) : Part → Option (Fields × List Char)
  | .literal text => do return (state.1, ← dropLiteral text state.2)
  | .blanks _ => some (state.1, Text.trimStart state.2)
  | .figure f _ => takeFigure f state.1 state.2
  | .wording w => takeWording w state.1 state.2
  | .invalid => none

/-! ## From fields to a date -/

/-- The year that a full year, a century and a year of the century stand for; `none` if they
contradict each other or do not suffice, and `some none` if there is none of them.  A year of an
unknown century is one from 1970 to 2069. -/
def yearOf (full century ofCentury : Option Int) : Option (Option Int) :=
  match full, century, ofCentury with
  | y, none, none => some y
  | some y, q, r =>
    if 0 ≤ y ∧ q.getD (y / 100) = y / 100 ∧ r.getD (y % 100) = y % 100 then some (some y)
    else none
  | none, some q, some r => some (some (q * 100 + r))
  | none, none, some r => some (some (if r < 70 then 2000 + r else 1900 + r))
  | none, some _, none => none

/-- What a date has under a field of the date. -/
def fieldOf (d : Date) : Field → Option Int
  | .year => some d.year
  | .century => if 0 ≤ d.year then some (d.year / 100) else none
  | .yearOfCentury => if 0 ≤ d.year then some (d.year % 100) else none
  | .isoYear => some d.isoWeek.1
  | .isoYearOfCentury => if 0 ≤ d.isoWeek.1 then some (d.isoWeek.1 % 100) else none
  | .quarter => some d.quarter
  | .month => some d.month
  | .day => some d.day
  | .weekFromSunday => some (d.weekFrom 6)
  | .weekFromMonday => some (d.weekFrom 0)
  | .isoWeek => some d.isoWeek.2
  | .weekday => some d.weekday
  | .ordinal => some d.ordinal
  | _ => none

/-- Whether a field says something about the date. -/
def isOfDate : Field → Bool
  | .half | .hourOfHalf | .minute | .second | .nanosecond | .timestamp | .offset => false
  | _ => true

/-- Whether every field that was noted agrees with a date. -/
def agrees (fields : Fields) (d : Date) : Bool :=
  fields.all fun (f, n) => !isOfDate f || fieldOf d f == some n

/-- The date that the fields determine, before the others are compared with it. -/
def determine (fields : Fields) : Option Date := do
  let get := fun f => fields.lookup f
  let year ← yearOf (get .year) (get .century) (get .yearOfCentury)
  let isoYear ← yearOf (get .isoYear) none (get .isoYearOfCentury)
  match year, get .month, get .day, get .ordinal with
  | some y, some m, some d, _ => ofYmd? y m.toNat d.toNat
  | some y, _, _, some n => ofOrdinal? y n.toNat
  | _, _, _, _ =>
    match year, get .weekFromSunday, get .weekFromMonday, get .weekday with
    | some y, some w, _, some wd => ofWeek? y w.toNat wd.toNat 6
    | some y, none, some w, some wd => ofWeek? y w.toNat wd.toNat 0
    | _, _, _, _ =>
      match isoYear, get .isoWeek, get .weekday with
      | some y, some w, some wd => ofIsoWeek? y w.toNat wd.toNat
      | _, _, _ => none

/-- The date that the fields stand for. -/
def ofFields (fields : Fields) : Option Date :=
  (determine fields).filter (agrees fields)

/-- The date that a whole text has in a pattern. -/
def read (pattern : String) (cs : List Char) : Option Date := do
  let (fields, rest) ← (readPattern pattern).foldlM takePart (([] : Fields), cs)
  if rest.isEmpty then ofFields fields else none

/-- The date in the pattern of pipelines. -/
def readIso (s : String) : Option Date := read isoPattern s.toList

/-! ## Timestamps -/

/-- The date of an internet timestamp, such as `2024-05-01T10:00:00.5+02:00`: the one at its
offset.  Every number has its full width, and the offset is below a day. -/
def readTimestamp (cs : List Char) : Option Date := do
  let (year, cs) ← readExactly 4 cs
  let (month, cs) ← readExactly 2 (← takeChar '-' cs)
  let (day, cs) ← readExactly 2 (← takeChar '-' cs)
  let (hour, cs) ← readExactly 2 (← takeTimeMark cs)
  let (minute, cs) ← readExactly 2 (← takeChar ':' cs)
  let (second, cs) ← readExactly 2 (← takeChar ':' cs)
  let (_, cs) ← takeFraction none [] cs
  let (offset, cs) ← readOffset (takeChar ':') true false cs
  if hour < 24 ∧ minute < 60 ∧ second ≤ 60 ∧ offset.natAbs < 24 * 3600 ∧ cs.isEmpty then
    ofYmd? year month day
  else none

end Intake.Date
