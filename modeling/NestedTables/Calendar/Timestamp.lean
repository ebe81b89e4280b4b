import NestedTables.Calendar.Date

/-!
# Moments

A `NestedTables.Timestamp` is a date, a time of day to the microsecond and, if it is known,
the offset of its clock from universal time. Two timestamps with offsets are the same
moment when they agree in universal time; one without an offset is never the same as one
with.
-/

namespace NestedTables

/-- A time of day. -/
structure Time where
  hour : Nat
  minute : Nat
  second : Nat
  microsecond : Nat
  hour_lt : hour < 24
  minute_lt : minute < 60
  second_lt : second < 60
  microsecond_lt : microsecond < 1000000
deriving DecidableEq, Repr

namespace Time

def make (hour minute second microsecond : Nat) : Except CalendarFault Time :=
  if h : hour < 24 then
    if m : minute < 60 then
      if s : second < 60 then
        if u : microsecond < 1000000 then .ok ⟨hour, minute, second, microsecond, h, m, s, u⟩
        else .error .fraction
      else .error .second
    else .error .minute
  else .error .hour

def midnight : Time :=
  ⟨0, 0, 0, 0, by decide, by decide, by decide, by decide⟩

def inMicroseconds (t : Time) : Nat :=
  ((t.hour * 60 + t.minute) * 60 + t.second) * 1000000 + t.microsecond

/-- The time as `hour:minute:second`, with six places of the second unless they are zero. -/
def iso (t : Time) : List Char :=
  Date.zeroPadded 2 t.hour ++ ':' :: Date.zeroPadded 2 t.minute ++ ':' ::
    Date.zeroPadded 2 t.second ++
    if t.microsecond = 0 then [] else '.' :: Date.zeroPadded 6 t.microsecond

end Time

/-- How far a clock is ahead of universal time: less than a day either way. -/
structure Offset where
  microseconds : Int
  less_than_day : microseconds.natAbs < 86400000000
deriving DecidableEq, Repr

namespace Offset

/-- The offset of a clock that shows universal time. -/
def utc : Offset := ⟨0, by decide⟩

def make (seconds microseconds : Int) : Except CalendarFault Offset :=
  let total := seconds * 1000000 + microseconds
  if h : total.natAbs < 86400000000 then .ok ⟨total, h⟩ else .error (.offset seconds)

/-- The offset as a sign, `hour:minute`, and seconds and places of the second if it has any. -/
def iso (o : Offset) : List Char :=
  let size := o.microseconds.natAbs
  let fraction := size % 1000000
  let seconds := size / 1000000
  (if o.microseconds < 0 then '-' else '+') :: Date.zeroPadded 2 (seconds / 3600) ++
    ':' :: Date.zeroPadded 2 (seconds / 60 % 60) ++
    if seconds % 60 = 0 ∧ fraction = 0 then []
    else ':' :: Date.zeroPadded 2 (seconds % 60) ++
      if fraction = 0 then [] else '.' :: Date.zeroPadded 6 fraction

end Offset

/-- A moment. -/
structure Timestamp where
  date : Date
  time : Time
  offset : Option Offset
deriving DecidableEq, Repr

namespace Timestamp

/-- The date and the time with `separator` between them, and the offset if there is one. -/
def written (separator : Char) (t : Timestamp) : List Char :=
  t.date.iso ++ separator :: t.time.iso ++ (t.offset.map Offset.iso).getD []

/-- The timestamp as the standard writes it. -/
def iso (t : Timestamp) : List Char :=
  t.written 'T'

/-- The timestamp as a JSON text: a clock that shows universal time is marked by `Z`. -/
def zulu (t : Timestamp) : List Char :=
  if t.offset = some .utc then t.date.iso ++ 'T' :: t.time.iso ++ ['Z'] else t.iso

/-- The moment in microseconds of universal time, for a known offset. -/
def instant (t : Timestamp) (o : Offset) : Int :=
  (t.date.dayNumber * 86400000000 + t.time.inMicroseconds : Nat) - o.microseconds

/-- Whether two timestamps are the same moment. -/
def same (a b : Timestamp) : Bool :=
  match a.offset, b.offset with
  | some p, some q => a.instant p = b.instant q
  | none, none => a = b
  | _, _ => false

end Timestamp

end NestedTables
