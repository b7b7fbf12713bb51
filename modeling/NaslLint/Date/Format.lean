import NaslLint.Date.Calendar
import NaslLint.Pattern.Search
import NaslLint.Text.Digit

/-!
# Dates as text

A date format is a list of parts, and the same list says how a time is written and how it is read.
Writing pads every number to its full width. Reading is more liberal: a number may lack its
leading zero, a gap may be any run of blanks, and names count in upper and lower case.
-/

namespace NaslLint

inductive DatePart where
  | year
  | month
  | monthName
  | monthAbbreviation
  | day
  | hour
  | minute
  | second
  | offset
  | weekday
  | gap
  | mark (c : Char)
deriving DecidableEq, Repr

abbrev DateFormat := List DatePart

namespace DateFormat

open DatePart

/-- `2021-03-24 10:08:26 +0000 (Wed, 24 Mar 2021)`, the form of creation and modification dates. -/
def stamp : DateFormat :=
  [year, mark '-', month, mark '-', day, gap, hour, mark ':', minute, mark ':', second, gap, offset,
   gap, mark '(', weekday, mark ',', gap, day, gap, monthAbbreviation, gap, year, mark ')']

/-- `2021-03-24T10:08:26+0000`, the form of script versions. -/
def version : DateFormat :=
  [year, mark '-', month, mark '-', day, mark 'T', hour, mark ':', minute, mark ':', second, offset]

/-- The first half of a stamp, `2021-03-24 10:08:26 +0000`. -/
def stampTime : DateFormat :=
  [year, mark '-', month, mark '-', day, gap, hour, mark ':', minute, mark ':', second, gap, offset]

/-- The second half of a stamp, `Wed, 24 Mar 2021`. -/
def stampDay : DateFormat :=
  [weekday, mark ',', gap, day, gap, monthAbbreviation, gap, year]

/-- `24 March, 2021`. -/
def longDay : DateFormat :=
  [day, gap, monthName, mark ',', gap, year]

/-- `24 Mar, 2021`. -/
def shortDay : DateFormat :=
  [day, gap, monthAbbreviation, mark ',', gap, year]

/-- `2021/03/24`. -/
def slashedDay : DateFormat :=
  [year, mark '/', month, mark '/', day]

end DateFormat

namespace DatePart

def twoDigits (n : Nat) : List Char :=
  let ds := Nat.toDigits 10 n
  if ds.length < 2 then '0' :: ds else ds

def write (t : DateTime) : DatePart → List Char
  | year => Nat.toDigits 10 t.year
  | month => twoDigits t.month
  | monthName => (Date.monthNames.getD (t.month - 1) "").toList
  | monthAbbreviation => (Date.monthAbbreviations.getD (t.month - 1) "").toList
  | day => twoDigits t.day
  | hour => twoDigits t.hour
  | minute => twoDigits t.minute
  | second => twoDigits t.second
  | offset => "+0000".toList
  | weekday => t.toDate.weekday.toList
  | gap => [' ']
  | mark c => [c]

/-- The names a part can be read from; longer names are tried first. -/
def names : DatePart → List String
  | monthName =>
    ["September", "February", "November", "December", "January", "October", "August", "March",
     "April", "June", "July", "May"]
  | monthAbbreviation => Date.monthAbbreviations
  | weekday => Date.weekdayNames
  | _ => []

/-- The name under which a part's text is remembered while reading. -/
def label : DatePart → String
  | year => "year"
  | month => "month"
  | monthName => "month name"
  | monthAbbreviation => "month abbreviation"
  | day => "day"
  | hour => "hour"
  | minute => "minute"
  | second => "second"
  | offset => "offset"
  | weekday => "weekday"
  | gap => "gap"
  | mark _ => "mark"

def digitFrom (lo hi : Char) : Pattern :=
  .one fun c => lo ≤ c && c ≤ hi

def anyDigit : Pattern :=
  .one Text.isDigit

/-- The offset from UTC in hours and minutes, and possibly seconds and fractions of them, or the
letter `Z`, which must be a capital. -/
def offsetPattern : Pattern :=
  let colon := Pattern.optional ":"
  let sixty := Pattern.chain [digitFrom '0' '5', anyDigit]
  .oneOf
    [.chain [.one (Pattern.among "+-"), anyDigit, anyDigit, colon, sixty,
        .optional (.chain [colon, sixty,
          .optional (.chain [".", .run .longest 1 (some 6) Text.isDigit])])],
     "Z"]

def pattern : DatePart → Pattern
  | year => .chain [anyDigit, anyDigit, anyDigit, anyDigit]
  | month =>
    .oneOf [.chain ["1", digitFrom '0' '2'], .chain ["0", digitFrom '1' '9'], digitFrom '1' '9']
  | day =>
    .oneOf [.chain ["3", digitFrom '0' '1'], .chain [digitFrom '1' '2', anyDigit],
      .chain ["0", digitFrom '1' '9'], digitFrom '1' '9', .chain [" ", digitFrom '1' '9']]
  | hour =>
    .oneOf [.chain ["2", digitFrom '0' '3'], .chain [digitFrom '0' '1', anyDigit], anyDigit]
  | minute => .oneOf [.chain [digitFrom '0' '5', anyDigit], anyDigit]
  | second =>
    .oneOf [.chain ["6", digitFrom '0' '1'], .chain [digitFrom '0' '5', anyDigit], anyDigit]
  | offset => offsetPattern
  | gap => .someBlanks
  | mark c => .wordAnyCase [c]
  | p => .oneOf (p.names.map fun n => .wordAnyCase n.toList)

end DatePart

namespace DateFormat

def write (f : DateFormat) (t : DateTime) : List Char :=
  f.flatMap (DatePart.write t)

def pattern (f : DateFormat) : Pattern :=
  .chain (f.map fun p => .group p.label p.pattern)

/-- The position of a name among others, from 1 on, in ASCII letters of either case. -/
def nameNumber? (names : List String) (t : List Char) : Option Nat :=
  (names.findIdx? fun n => n.toList.map Char.toLower == t.map Char.toLower).map (· + 1)

/-- Whether the text of an offset denotes a time zone: it uses colons throughout or not at all and
stays below 24 hours. -/
def offsetIsValid : List Char → Bool
  | ['Z'] => true
  | _ :: h1 :: h2 :: ':' :: _ :: _ :: more =>
    (more.isEmpty || more.head? == some ':') && ((Text.readNat? [h1, h2]).any (· < 24))
  | _ :: h1 :: h2 :: _ :: _ :: more =>
    more.head? != some ':' && ((Text.readNat? [h1, h2]).any (· < 24))
  | _ => false

/-- Reads a date: the whole text has to fit the format and the date has to exist. -/
def read? (f : DateFormat) (t : List Char) : Option DateTime := do
  let m ← f.pattern.matchStart? t
  if m.stop ≠ t.length then none
  let number (p : DatePart) (default : Nat) : Option Nat :=
    match m.group? p.label with
    | none => some default
    | some w => Text.readNat? (Text.trim w)
  let month ←
    match m.group? DatePart.monthName.label, m.group? DatePart.monthAbbreviation.label with
    | some w, _ => nameNumber? Date.monthNames w
    | none, some w => nameNumber? Date.monthAbbreviations w
    | none, none => number .month 1
  let year ← number .year 1900
  let day ← number .day 1
  let hour ← number .hour 0
  let minute ← number .minute 0
  let second ← number .second 0
  if !(m.group? DatePart.offset.label).all offsetIsValid then none
  if !(m.group? DatePart.weekday.label).all fun w => (nameNumber? Date.weekdayNames w).isSome then
    none
  let date : Date := { year, month, day }
  if date.isValid && second ≤ 59 then some { date with hour, minute, second } else none

end DateFormat

end NaslLint
