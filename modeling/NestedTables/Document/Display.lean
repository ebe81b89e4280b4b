import NestedTables.Document.Value
import NestedTables.Text.DigitLimit
import NestedTables.Text.Quoted

/-!
# How messages show a value

A message shows a value either as it is *written* (`Value.shown`), where texts are quoted
and every kind of value can be told from the others, or as *plain* text (`Scalar.plain`),
where a text stands for itself and a date is in the standard notation.

A value with an integer of too many digits cannot be shown at all; `Value.isWritable` says
whether one can.
-/

namespace NestedTables

/-- Numbers in messages are positional from `0.0001` up to sixteen digits before the point. -/
def messageNumbers : DecimalLayout where
  leastPositional := -4
  leastScientific := 16
  exponentWidth := 2
  pointBeforeExponent := false
  notANumber := "nan"
  infinity := "inf"
  negativeInfinity := "-inf"

/-- Texts with a comma between them. -/
def commaSeparated (parts : List String) : String :=
  ", ".intercalate parts

/-- A span of time as days, seconds and microseconds, of which only the days may be
negative. -/
def shownSpan (microseconds : Int) : String :=
  let day : Int := 86400000000
  let rest := microseconds.fmod day
  let parts := [("days", microseconds.fdiv day), ("seconds", rest / 1000000),
    ("microseconds", rest % 1000000)]
  let written := (parts.filter (·.2 ≠ 0)).map fun p => s!"{p.1}={p.2}"
  s!"datetime.timedelta({if written.isEmpty then toString 0 else commaSeparated written})"

/-- What is said of a part of a date, a time or an offset that is out of range. -/
def CalendarFault.message : CalendarFault → String
  | .year n => s!"year {n} is out of range"
  | .month => "month must be in 1..12"
  | .day => "day is out of range for month"
  | .hour => "hour must be in 0..23"
  | .minute => "minute must be in 0..59"
  | .second => "second must be in 0..59"
  | .fraction => "microsecond must be in 0..999999"
  | .offset seconds =>
    "offset must be a timedelta strictly between -timedelta(hours=24) and " ++
      s!"timedelta(hours=24), not {shownSpan (seconds * 1000000)}."

def Offset.shown (o : Offset) : String :=
  if o = .utc then "datetime.timezone.utc"
  else s!"datetime.timezone({shownSpan o.microseconds})"

namespace Scalar

/-- A scalar as it is written. -/
def shown : Scalar → String
  | .null => "None"
  | .bool b => if b then "True" else "False"
  | .int n => toString n
  | .real x => String.ofList (messageNumbers.render x)
  | .text s => Text.quoted s
  | .date d => s!"datetime.date({d.year}, {d.month}, {d.day})"
  | .moment t =>
    let seconds :=
      if t.time.microsecond ≠ 0 then [t.time.second, t.time.microsecond]
      else if t.time.second ≠ 0 then [t.time.second]
      else []
    let numbers := [t.date.year, t.date.month, t.date.day, t.time.hour, t.time.minute] ++ seconds
    let zone := match t.offset with
      | some o => s!", tzinfo={o.shown}"
      | none => ""
    s!"datetime.datetime({commaSeparated (numbers.map toString)}{zone})"
  | .bytes bs => Text.quotedBytes bs

/-- Whether a scalar is short enough to be written. -/
def isWritable : Scalar → Bool
  | .int n => Text.isWritable n
  | _ => true

/-- A scalar as plain text. -/
def plain : Scalar → String
  | .text s => s
  | .date d => String.ofList d.iso
  | .moment t => String.ofList (t.written ' ')
  | s => s.shown

end Scalar

namespace Value

mutual

/-- A value as it is written. -/
def shown : Value → String
  | .scalar s => s.shown
  | .list items => "[" ++ commaSeparated (shownList items) ++ "]"
  | .map entries => "\x7b" ++ commaSeparated (shownEntries entries) ++ "\x7d"
  | .set members =>
    if members.isEmpty then "set()"
    else "\x7b" ++ commaSeparated (members.map Scalar.shown) ++ "\x7d"
  | .pair a b => "(" ++ shown a ++ ", " ++ shown b ++ ")"

def shownList : List Value → List String
  | [] => []
  | v :: vs => shown v :: shownList vs

def shownEntries : List (Scalar × Value) → List String
  | [] => []
  | (k, v) :: es => (k.shown ++ ": " ++ shown v) :: shownEntries es

end

mutual

/-- Whether all integers in a value are short enough to be written. -/
def isWritable : Value → Bool
  | .scalar s => s.isWritable
  | .list items => allWritable items
  | .map entries => entriesWritable entries
  | .set members => members.all Scalar.isWritable
  | .pair a b => isWritable a && isWritable b

def allWritable : List Value → Bool
  | [] => true
  | v :: vs => isWritable v && allWritable vs

def entriesWritable : List (Scalar × Value) → Bool
  | [] => true
  | (k, v) :: es => k.isWritable && isWritable v && entriesWritable es

end

/-- A value as plain text; only a scalar differs from what is written. -/
def plain : Value → String
  | .scalar s => s.plain
  | v => v.shown

/-- The word for the kind of a value. -/
def kindName : Value → String
  | .null => "NoneType"
  | .bool _ => "bool"
  | .int _ => "int"
  | .real _ => "float"
  | .text _ => "str"
  | .scalar (.date _) => "date"
  | .scalar (.moment _) => "datetime"
  | .scalar (.bytes _) => "bytes"
  | .list _ => "list"
  | .map _ => "dict"
  | .set _ => "set"
  | .pair _ _ => "tuple"

end Value

end NestedTables
