import NestedTables.Document.Display

/-!
# Writing JSON

A value is written on one line, or with every member of a list and every property of an
object on a line of its own, two spaces further in than what holds it. Only ASCII is
written: other characters are escaped by their units of sixteen bits. What JSON has no
form for is written as the nearest thing it has: dates and bytes as texts, sets and pairs
as lists, numbers that are not finite as words.
-/

namespace NestedTables.Json

/-- Numbers in JSON are written as in messages, apart from those that are not finite. -/
def numbers : DecimalLayout :=
  { messageNumbers with notANumber := "NaN", infinity := "Infinity", negativeInfinity := "-Infinity" }

/-- The escape of a unit of sixteen bits. -/
def unitEscape (n : Nat) : List Char :=
  '\\' :: 'u' :: Text.hexDigits 4 n

/-- A character between the quotes of a text. -/
def writtenChar (c : Char) : List Char :=
  if c = '"' then ['\\', '"']
  else if c = '\\' then ['\\', '\\']
  else if c = '\n' then ['\\', 'n']
  else if c = '\r' then ['\\', 'r']
  else if c = '\t' then ['\\', 't']
  else if c = '\x08' then ['\\', 'b']
  else if c = '\x0c' then ['\\', 'f']
  else if 0x20 ≤ c.toNat ∧ c.toNat ≤ 0x7e then [c]
  else if c.toNat < 0x10000 then unitEscape c.toNat
  else
    let n := c.toNat - 0x10000
    unitEscape (0xd800 + n / 0x400) ++ unitEscape (0xdc00 + n % 0x400)

/-- A text between quotes. -/
def writtenText (s : String) : List Char :=
  '"' :: (s.toList.flatMap writtenChar ++ ['"'])

def writtenScalar : Scalar → List Char
  | .null => "null".toList
  | .bool b => if b then "true".toList else "false".toList
  | .int n => (toString n).toList
  | .real x => numbers.render x
  | s => writtenText s.plain

/-- How far members are set in: not at all if everything stands on one line. -/
inductive Spacing
  | line
  | indented (depth : Nat)

/-- The spacing inside a list or an object. -/
def Spacing.inner : Spacing → Spacing
  | .line => .line
  | .indented depth => .indented (depth + 1)

/-- What stands between an opening bracket and the first member, or after the last one. -/
def Spacing.brk : Spacing → List Char
  | .line => []
  | .indented depth => '\n' :: List.replicate (2 * depth) ' '

/-- What stands between two members. -/
def Spacing.comma : Spacing → List Char
  | .line => [',', ' ']
  | .indented depth => ',' :: (Spacing.indented depth).brk

/-- Members between brackets. -/
def Spacing.enclosed (spacing : Spacing) (opening closing : Char) (members : List (List Char)) :
    List Char :=
  if members.isEmpty then [opening, closing]
  else
    opening :: spacing.inner.brk ++ spacing.inner.comma.intercalate members ++
      spacing.brk ++ [closing]

mutual

/-- A value with a spacing. -/
def written (spacing : Spacing) : Value → List Char
  | .scalar s => writtenScalar s
  | .list vs => spacing.enclosed '[' ']' (writtenItems spacing.inner vs)
  | .map es => spacing.enclosed '\x7b' '\x7d' (writtenEntries spacing.inner es)
  | .set ms => spacing.enclosed '[' ']' (ms.map writtenScalar)
  | .pair a b => spacing.enclosed '[' ']' [written spacing.inner a, written spacing.inner b]

def writtenItems (spacing : Spacing) : List Value → List (List Char)
  | [] => []
  | v :: vs => written spacing v :: writtenItems spacing vs

def writtenEntries (spacing : Spacing) : List (Scalar × Value) → List (List Char)
  | [] => []
  | (k, v) :: es =>
    (writtenText k.plain ++ ':' :: ' ' :: written spacing v) :: writtenEntries spacing es

end

/-- A value on one line. -/
def writeLine (v : Value) : String :=
  String.ofList (written .line v)

/-- A value with every member on a line of its own. -/
def writeIndented (v : Value) : String :=
  String.ofList (written (.indented 0) v)

end NestedTables.Json
