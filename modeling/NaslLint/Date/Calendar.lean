/-!
# Calendar dates and times of day

Dates of the Gregorian calendar, extended to all years from 1 on, and times to the second.
-/

namespace NaslLint

structure Date where
  year : Nat
  month : Nat
  day : Nat
deriving DecidableEq, Repr, Inhabited

structure DateTime extends Date where
  hour : Nat
  minute : Nat
  second : Nat
deriving DecidableEq, Repr, Inhabited

namespace Date

def isLeapYear (year : Nat) : Bool :=
  year % 4 == 0 && (year % 100 != 0 || year % 400 == 0)

def daysInMonth (year month : Nat) : Nat :=
  match month with
  | 2 => if isLeapYear year then 29 else 28
  | 4 | 6 | 9 | 11 => 30
  | _ => 31

/-- The day exists, in a year from 1 to 9999. -/
def isValid (d : Date) : Bool :=
  1 ≤ d.year && d.year ≤ 9999 && 1 ≤ d.month && d.month ≤ 12 &&
    1 ≤ d.day && d.day ≤ daysInMonth d.year d.month

def daysBeforeYear (year : Nat) : Nat :=
  let y := year - 1
  y * 365 + y / 4 - y / 100 + y / 400

def daysBeforeMonth (year month : Nat) : Nat :=
  (List.range (month - 1)).foldl (fun days m => days + daysInMonth year (m + 1)) 0

/-- The number of a day, counted from 1 at the first day of year 1. -/
def ordinal (d : Date) : Nat :=
  daysBeforeYear d.year + daysBeforeMonth d.year d.month + d.day

/-- Abbreviated English weekday names, from Monday on. -/
def weekdayNames : List String :=
  ["Mon", "Tue", "Wed", "Thu", "Fri", "Sat", "Sun"]

def monthNames : List String :=
  ["January", "February", "March", "April", "May", "June", "July", "August", "September",
   "October", "November", "December"]

def monthAbbreviations : List String :=
  ["Jan", "Feb", "Mar", "Apr", "May", "Jun", "Jul", "Aug", "Sep", "Oct", "Nov", "Dec"]

/-- The abbreviated name of the day's weekday. Day 1 is a Monday. -/
def weekday (d : Date) : String :=
  weekdayNames.getD ((d.ordinal - 1) % 7) ""

def atMidnight (d : Date) : DateTime :=
  { d with hour := 0, minute := 0, second := 0 }

end Date

namespace DateTime

/-- The seconds from the day before the calendar starts. -/
def seconds (t : DateTime) : Nat :=
  ((t.ordinal * 24 + t.hour) * 60 + t.minute) * 60 + t.second

/-- The time is at least `days` days before `now`. -/
def isDaysBefore (t : DateTime) (days : Nat) (now : DateTime) : Bool :=
  t.seconds + days * 86400 ≤ now.seconds

def isWithinDays (t : DateTime) (days : Nat) (now : DateTime) : Bool :=
  now.seconds ≤ t.seconds + days * 86400

end DateTime

end NaslLint
