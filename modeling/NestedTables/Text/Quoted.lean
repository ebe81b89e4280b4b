import NestedTables.Text.Hex
import NestedTables.Text.Printable

/-!
# Quoted text

How a message shows a text that is a value: between quotes, with a backslash before what
would end or confuse it. The quote is a single one, unless the text holds a single quote
and no double one; then it is a double one and neither has to be escaped.
-/

namespace NestedTables.Text

/-- The escape of a character that is not printable: two, four or eight hexadecimal
digits, whichever holds the code point first. -/
def hexEscape (c : Char) : List Char :=
  let n := c.toNat
  if n < 0x100 then '\\' :: 'x' :: hexDigits 2 n
  else if n < 0x10000 then '\\' :: 'u' :: hexDigits 4 n
  else '\\' :: 'U' :: hexDigits 8 n

/-- A character as it stands between two quotes `mark`; `shown` says which characters
need no escape. -/
def quotedChar (shown : Char → Bool) (mark c : Char) : List Char :=
  if c = mark ∨ c = '\\' then ['\\', c]
  else if c = '\t' then ['\\', 't']
  else if c = '\n' then ['\\', 'n']
  else if c = '\r' then ['\\', 'r']
  else if shown c then [c]
  else hexEscape c

/-- The quote that a text is put between. -/
def quoteMark (cs : List Char) : Char :=
  if cs.contains '\'' && !cs.contains '"' then '"' else '\''

/-- A list of characters between quotes. -/
def quotedChars (shown : Char → Bool) (cs : List Char) : List Char :=
  let mark := quoteMark cs
  mark :: (cs.flatMap (quotedChar shown mark) ++ [mark])

/-- A text between quotes. -/
def quoted (s : String) : String :=
  String.ofList (quotedChars isPrintable s.toList)

/-- Bytes between quotes, after a `b`. Only printable ASCII is shown as it stands. -/
def quotedBytes (bytes : List UInt8) : String :=
  String.ofList <| 'b' :: quotedChars (fun c => 0x20 ≤ c.toNat && c.toNat < 0x7f)
    (bytes.map fun b => Char.ofNat b.toNat)

example : quoted "it's" = "\"it's\"" := by decide
example : quoted "\"it's\"\n" = "'\"it\\'s\"\\n'" := by decide

end NestedTables.Text
