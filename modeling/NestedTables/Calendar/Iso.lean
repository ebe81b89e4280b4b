import NestedTables.Calendar.Timestamp

/-!
# Reading dates and moments in the standard notation

The standard writes a date with or without hyphens and by month and day or by week, and a
time with or without colons, down to the hour alone and up to a fraction of the second.
`Date.ofIso?` and `Timestamp.ofIso?` read all of these layouts.

Any character may stand between a date and a time, so where the date ends is decided by the
first characters alone, in `Iso.dateEnd`. The layout of a time is decided by its first
separator: if it is a colon, the others must be colons too. A time is read up to the first
sign or `Z`, and what follows it is its offset. Three liberties are part of the notation that
is read: any one octet may end the time in front of an offset, digits of the second beyond the
sixth place are dropped, and a NUL ends what it follows where nothing more is called for.
-/

namespace NestedTables

namespace Iso

/-- The value of a list of decimal digits. -/
def number? (cs : List Char) : Option Nat :=
  if cs.all Char.isDigit then
    some (cs.foldl (fun n c => 10 * n + (c.toNat - 0x30)) 0)
  else none

/-- Reads exactly `count` digits. -/
def digits? (count : Nat) (cs : List Char) : Option (Nat × List Char) :=
  if (cs.take count).length = count then
    (number? (cs.take count)).map fun n => (n, cs.drop count)
  else none

/-- Takes a hyphen off the front where one is called for. -/
def hyphen? (called : Bool) (cs : List Char) : Option (List Char) :=
  if called then
    match cs with
    | '-' :: rest => some rest
    | _ => none
  else some cs

/-- Reads a date off the front of `cs`, of which `size` characters are meant for it. The size
matters for a week alone: a date by week that fills it has no day of the week and is its
Monday. -/
def date? (size : Nat) (cs : List Char) : Option (Date × List Char) := do
  let (year, rest) ← digits? 4 cs
  let separated := rest.head? = some '-'
  let rest := if separated then rest.drop 1 else rest
  match rest with
  | 'W' :: rest =>
    let (week, rest) ← digits? 2 rest
    if cs.length - rest.length < size then
      let rest ← hyphen? separated rest
      let (weekday, rest) ← digits? 1 rest
      (Date.ofWeek? year week weekday).map (·, rest)
    else (Date.ofWeek? year week 1).map (·, rest)
  | _ =>
    let (month, rest) ← digits? 2 rest
    let rest ← hyphen? separated rest
    let (day, rest) ← digits? 2 rest
    (Date.make year month day).toOption.map (·, rest)

/-- The number of characters of a text that belong to its date. -/
def dateEnd (cs : List Char) : Nat :=
  let size := cs.length
  let at? (i : Nat) := cs[i]?
  if size = 7 then 7
  else if at? 4 = some '-' then
    if at? 5 = some 'W' then
      if at? 8 = some '-' then
        if 10 < size ∧ (at? 10).any Char.isDigit then 8 else 10
      else 8
    else 10
  else if at? 4 = some 'W' then
    let stop := 7 + ((cs.drop 7).takeWhile Char.isDigit).length
    if stop < 9 then stop else if stop % 2 = 0 then 7 else 8
  else 8

/-- What a text says about a clock. -/
structure Clock where
  /-- The hours, the minutes and the seconds, as far as they are written. -/
  units : List Nat
  microsecond : Nat
  /-- Whether something is left over, or an offset follows. -/
  more : Bool
deriving DecidableEq, Repr

def Clock.hour (c : Clock) : Nat := c.units.getD 0 0
def Clock.minute (c : Clock) : Nat := c.units.getD 1 0
def Clock.second (c : Clock) : Nat := c.units.getD 2 0

/-- The clock with a larger unit in front. -/
def Clock.under (n : Nat) (c : Clock) : Clock := ⟨n :: c.units, c.microsecond, c.more⟩

/-- Whether `rest` begins with something that is not the end, when `followed` says whether
anything comes after `rest`. A NUL is an end. -/
def isMore (followed : Bool) : List Char → Bool
  | [] => followed
  | c :: _ => c ≠ '\x00'

/-- Reads a fraction of the second: six digits or fewer that are kept, and digits that are
dropped. -/
def fraction? (followed : Bool) (cs : List Char) : Option Clock :=
  let places := cs.take 6
  (number? places).map fun n =>
    ⟨[], n * Nat.pow 10 (6 - places.length), isMore followed ((cs.drop 6).dropWhile Char.isDigit)⟩

/-- Reads a clock from `cs`. There may be `smaller` units after the first one; `colons` says
whether colons stand between them, once that is known, and `followed` whether an offset
stands after `cs`. A single octet at the end is not read, whatever it is. -/
def clock? (followed : Bool) (smaller : Nat) (colons : Option Bool) (cs : List Char) :
    Option Clock :=
  match digits? 2 cs with
  | none => none
  | some (n, []) => some ⟨[n], 0, followed⟩
  | some (n, c :: rest) =>
    if rest.isEmpty && c.utf8Size = 1 then some ⟨[n], 0, isMore followed [c]⟩ else
    let separated := colons.getD (c = ':')
    let next? (cs : List Char) : Option Clock :=
      match smaller with
      | 0 => fraction? followed cs
      | smaller + 1 => clock? followed smaller (some separated) cs
    let below :=
      if separated && c = ':' then next? rest
      else if c = '.' || c = ',' then fraction? followed rest
      else if separated then none
      else next? (c :: rest)
    below.map (·.under n)

/-- The offset that a text writes, from its sign or its `Z` on. -/
def offset? : List Char → Option Offset
  | [] => none
  | mark :: rest =>
    if mark = 'Z' then if isMore false rest then none else some .utc
    else match clock? false 2 none rest with
      | none => none
      | some clock =>
        let sign : Int := if mark = '-' then -1 else 1
        let seconds := sign * ((clock.hour * 60 + clock.minute) * 60 + clock.second : Nat)
        if clock.more then none
        else if seconds = 0 then some .utc
        else (Offset.make seconds (sign * clock.microsecond)).toOption

/-- Whether a character begins an offset. -/
def isOffsetMark (c : Char) : Bool :=
  c = '+' || c = '-' || c = 'Z'

/-- Reads a time and its offset from the whole of a text. -/
def time? (cs : List Char) : Option (Time × Option Offset) :=
  let after := cs.dropWhile (!isOffsetMark ·)
  match clock? (!after.isEmpty) 2 none (cs.takeWhile (!isOffsetMark ·)) with
  | none => none
  | some clock =>
    match Time.make clock.hour clock.minute clock.second clock.microsecond with
    | .error _ => none
    | .ok time =>
      if after.isEmpty then if clock.more then none else some (time, none)
      else (offset? after).map (time, some ·)

end Iso

/-- The date that a text writes in the standard notation. The notation has seven, eight or
ten characters; of a text of ten, what follows a date of eight is not looked at. -/
def Date.ofIso? (s : String) : Option Date :=
  let size := s.utf8ByteSize
  if size = 7 ∨ size = 8 ∨ size = 10 then
    (Iso.date? size s.toList).map (·.1)
  else none

/-- The moment that a text writes in the standard notation. A date alone is its midnight. -/
def Timestamp.ofIso? (s : String) : Option Timestamp :=
  let size := Iso.dateEnd s.toList
  match Iso.date? size s.toList with
  | none => none
  | some (date, _) =>
    if s.toList.length ≤ size then some ⟨date, .midnight, none⟩
    else (Iso.time? (s.toList.drop (size + 1))).map fun (time, offset) => ⟨date, time, offset⟩

end NestedTables
