import NestedTables.Calendar.Timestamp
import NestedTables.Document.Value

/-!
# Dates and moments in YAML

A date is written as year, month and day with hyphens between them. A moment goes on, after a
`T` or blanks, with hour, minute and second with colons between them, perhaps with places of
the second, and perhaps with an offset: a `Z`, or a sign with hours and perhaps minutes. A
month, a day or an hour may have a single digit; a date by itself is only recognized without a
tag if it has two for both.

`Moment.ofText?` reads the numbers, and `Moment.scalar` checks them against the calendar.
-/

namespace NestedTables.Yaml

/-- The offset of a written moment: that of universal time, or a sign, hours and minutes. -/
inductive WrittenOffset
  | zulu
  | hours (negative : Bool) (hours minutes : Nat)
deriving DecidableEq, Repr

/-- The time of a written moment. -/
structure WrittenTime where
  hour : Nat
  minute : Nat
  second : Nat
  microsecond : Nat
  offset : Option WrittenOffset
deriving DecidableEq, Repr

/-- The numbers of a date or a moment as they are written. -/
structure Moment where
  year : Nat
  month : Nat
  day : Nat
  time : Option WrittenTime
deriving DecidableEq, Repr

namespace Moment

/-- The number that decimal digits write. -/
def number (digits : List Char) : Nat :=
  digits.foldl (fun n d => 10 * n + (d.toNat - 0x30)) 0

/-- Takes a number of at least `least` and at most `most` digits off the front. -/
def digits? (least most : Nat) (cs : List Char) : Option (Nat × List Char) :=
  let taken := (cs.take most).takeWhile Char.isDigit
  if taken.length < least then none else some (number taken, cs.drop taken.length)

/-- Takes a character off the front. -/
def mark? (c : Char) : List Char → Option (List Char)
  | d :: rest => if d = c then some rest else none
  | [] => none

/-- Takes the places of the second off the front, in microseconds; further places are left
out. -/
def fraction (cs : List Char) : Nat × List Char :=
  match cs with
  | '.' :: rest =>
    let places := rest.takeWhile Char.isDigit
    (number ((places ++ List.replicate 6 '0').take 6), rest.drop places.length)
  | _ => (0, cs)

/-- Reads an offset to the end, after blanks. -/
def offset? (cs : List Char) : Option (Option WrittenOffset) :=
  match cs.dropWhile (fun c => c = ' ' || c = '\t') with
  | ['Z'] => some (some .zulu)
  | sign :: rest =>
    if sign = '-' || sign = '+' then do
      let (hours, rest) ← digits? 1 2 rest
      if rest.isEmpty then return some (.hours (sign = '-') hours 0)
      let (minutes, rest) ← digits? 2 2 (← mark? ':' rest)
      if rest.isEmpty then return some (.hours (sign = '-') hours minutes)
      none
    else none
  | [] => if cs.isEmpty then some none else none

/-- Reads a time to the end. -/
def time? (cs : List Char) : Option WrittenTime := do
  let (hour, rest) ← digits? 1 2 cs
  let (minute, rest) ← digits? 2 2 (← mark? ':' rest)
  let (second, rest) ← digits? 2 2 (← mark? ':' rest)
  let (microsecond, rest) := fraction rest
  let offset ← offset? rest
  return { hour, minute, second, microsecond, offset }

/-- What stands after the mark between a date and a time. -/
def afterDate? (cs : List Char) : Option (List Char) :=
  match cs with
  | c :: rest =>
    if c = 'T' || c = 't' then some rest
    else if c = ' ' || c = '\t' then some (rest.dropWhile fun c => c = ' ' || c = '\t')
    else none
  | [] => none

def ofText? (cs : List Char) : Option Moment := do
  let (year, rest) ← digits? 4 4 cs
  let (month, rest) ← digits? 1 2 (← mark? '-' rest)
  let (day, rest) ← digits? 1 2 (← mark? '-' rest)
  if rest.isEmpty then return { year, month, day, time := none }
  let time ← time? (← afterDate? rest)
  return { year, month, day, time := some time }

/-- Whether a text is a date or a moment without being called one. -/
def isPlain (cs : List Char) : Bool :=
  match ofText? cs with
  | some m => m.time.isSome || cs.length = 10
  | none => false

namespace WrittenOffset

def make : WrittenOffset → Except CalendarFault Offset
  | .zulu => .ok .utc
  | .hours negative hours minutes =>
    let seconds : Int := (hours * 60 + minutes) * 60
    Offset.make (if negative then -seconds else seconds) 0

end WrittenOffset

/-- The offset of a time, if it has one. -/
def madeOffset (t : WrittenTime) : Except CalendarFault (Option Offset) :=
  match t.offset with
  | none => .ok none
  | some o => (WrittenOffset.make o).map some

/-- The date or the moment, if the calendar has it. The offset is checked first, then the
date. -/
def scalar (m : Moment) : Except CalendarFault Scalar :=
  match m.time with
  | none => (Date.make m.year m.month m.day).map .date
  | some t => do
    let offset ← madeOffset t
    let date ← Date.make m.year m.month m.day
    let time ← Time.make t.hour t.minute t.second t.microsecond
    return .moment { date, time, offset }

end Moment

end NestedTables.Yaml
