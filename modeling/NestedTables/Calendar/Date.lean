import NestedTables.Decimal.Shortest

/-!
# Dates

A `NestedTables.Date` is a day of the calendar in use since 1582, carried back to the year
one; the last year is 9999. The type holds the proof that there is such a day, so a date
is made by `Date.make`, which names the part that is out of range otherwise.

Days are also counted from the first of January of the year one, which is day one. The
count decides whether two moments with different offsets are the same, and it leads from
a week of a year to a date.
-/

namespace NestedTables

/-- The part of a date, a time or an offset that is out of range. -/
inductive CalendarFault
  | year (n : Nat)
  | month
  | day
  | hour
  | minute
  | second
  | fraction
  /-- The offset in seconds, which should have been less than a day. -/
  | offset (seconds : Int)
deriving DecidableEq, Repr

namespace Date

def isLeap (year : Nat) : Bool :=
  year % 4 = 0 && (year % 100 ≠ 0 || year % 400 = 0)

def daysInMonth (year month : Nat) : Nat :=
  match month with
  | 2 => if isLeap year then 29 else 28
  | 4 | 6 | 9 | 11 => 30
  | _ => 31

/-- What is wrong with three numbers as a date; the year is looked at first, the day last. -/
def fault? (year month day : Nat) : Option CalendarFault :=
  if year < 1 ∨ 9999 < year then some (.year year)
  else if month < 1 ∨ 12 < month then some .month
  else if day < 1 ∨ daysInMonth year month < day then some .day
  else none

end Date

/-- A day of the calendar. -/
structure Date where
  year : Nat
  month : Nat
  day : Nat
  inCalendar : Date.fault? year month day = none
deriving DecidableEq, Repr

namespace Date

def make (year month day : Nat) : Except CalendarFault Date :=
  match h : fault? year month day with
  | none => .ok ⟨year, month, day, h⟩
  | some f => .error f

/-- The number of days before the first of January of a year. -/
def daysBeforeYear (year : Nat) : Nat :=
  let y := year - 1
  y * 365 + y / 4 - y / 100 + y / 400

/-- The number of days before the first of a month in its year. -/
def daysBeforeMonth (year month : Nat) : Nat :=
  ((List.range (month - 1)).map fun m => daysInMonth year (m + 1)).foldr (· + ·) 0

/-- The number of a day, counted from the first of January of the year one. -/
def dayNumber (d : Date) : Nat :=
  daysBeforeYear d.year + daysBeforeMonth d.year d.month + d.day

/-- The day of the week of the first of January, zero for a Monday. -/
def firstWeekday (year : Nat) : Nat :=
  (daysBeforeYear year + 7) % 7

/-- The number of the Monday of the first week of a year, which is the week with the first
Thursday. -/
def firstMonday (year : Nat) : Nat :=
  let start := daysBeforeYear year + 1
  if firstWeekday year > 3 then start + 7 - firstWeekday year else start - firstWeekday year

/-- Whether a year has a fifty-third week. -/
def hasLongYear (year : Nat) : Bool :=
  firstWeekday year = 3 || (firstWeekday year = 2 && isLeap year)

/-- The month and the day in it of the day that follows `days` days of a year; `months` are
the months that are still to be tried, in order. -/
def monthOf (year : Nat) : List Nat → Nat → Nat × Nat
  | [], days => (12, days + 1)
  | m :: months, days =>
    if days < daysInMonth year m then (m, days + 1)
    else monthOf year months (days - daysInMonth year m)

/-- The date of the day that lies `days` days after the first of January of `year`, which
may be in the year after. -/
def ofYearDay (year days : Nat) : Except CalendarFault Date :=
  let length := if isLeap year then 366 else 365
  let (year, days) := if days < length then (year, days) else (year + 1, days - length)
  let (month, day) := monthOf year [1, 2, 3, 4, 5, 6, 7, 8, 9, 10, 11, 12] days
  make year month day

/-- The date of a day of a week; nothing if the year has no such week or the week no such
day, or if the day lies outside the calendar. -/
def ofWeek? (year week weekday : Nat) : Option Date :=
  let inYear := 1 ≤ week && (week ≤ 52 || (week = 53 && hasLongYear year))
  if 1 ≤ year ∧ year ≤ 9999 ∧ inYear ∧ 1 ≤ weekday ∧ weekday ≤ 7 then
    let number := firstMonday year + 7 * (week - 1) + weekday - 1
    let before := daysBeforeYear year
    if before < number then (ofYearDay year (number - before - 1)).toOption
    else
      let earlier := daysBeforeYear (year - 1)
      (ofYearDay (year - 1) (number - earlier - 1)).toOption
  else none

/-- A number with zeros in front up to a width. -/
def zeroPadded (width n : Nat) : List Char :=
  DecimalLayout.padded width (Nat.toDigits 10 n)

/-- The date as `year-month-day`. -/
def iso (d : Date) : List Char :=
  zeroPadded 4 d.year ++ '-' :: zeroPadded 2 d.month ++ '-' :: zeroPadded 2 d.day

end Date

end NestedTables
