import NestedTables.Text.Hex

/-!
# Places in a YAML text

The indentation of YAML makes the column of a token count, and a key that is not marked as
one has to stay on its line and may not be long. A `Cursor` is what is left of a text, with
the line, the column and the number of characters before it. Columns count from zero; a byte
order mark has no width.

The line breaks are the line feed and the three breaks of Unicode. A text is expected to have
no carriage returns: its line ends have been unified when it was read from its file.
-/

namespace NestedTables.Yaml

/-- Whether a character breaks the line. -/
def isBreak (c : Char) : Bool :=
  c = '\n' || c = '\u0085' || c = '\u2028' || c = '\u2029'

/-- Whether a character is a space or a tab. -/
def isSpaceOrTab (c : Char) : Bool :=
  c = ' ' || c = '\t'

/-- The mark that may stand before the first character of a text. -/
def byteOrderMark : Char := '\ufeff'

/-- Whether a text is at its end or goes on with a character of a class. -/
def endsOr (p : Char → Bool) (cs : List Char) : Bool :=
  cs.head?.all p

/-- Whether a text is at the end of a line or at a space. -/
def atSpace (cs : List Char) : Bool :=
  endsOr (fun c => c = ' ' || isBreak c) cs

/-- Whether a text is at the end of a line, a space or a tab. -/
def atBlank (cs : List Char) : Bool :=
  endsOr (fun c => isSpaceOrTab c || isBreak c) cs

/-- What a break counts as in the text of a scalar. -/
def breakValue (c : Char) : Char :=
  if c = '\u0085' then '\n' else c

/-- A place in a text. -/
structure Cursor where
  rest : List Char
  /-- The number of characters before the place. -/
  index : Nat := 0
  line : Nat := 0
  column : Nat := 0
deriving DecidableEq, Repr

namespace Cursor

/-- The place after the next character. -/
def next (c : Cursor) : Cursor :=
  match c.rest with
  | [] => c
  | ch :: rest =>
    if isBreak ch then ⟨rest, c.index + 1, c.line + 1, 0⟩
    else ⟨rest, c.index + 1, c.line, if ch = byteOrderMark then c.column else c.column + 1⟩

/-- The place so many characters further on. -/
def skip : Nat → Cursor → Cursor
  | 0, c => c
  | n + 1, c => skip n c.next

/-- The next characters of a class, and the place after them. -/
def span (p : Char → Bool) (c : Cursor) : List Char × Cursor :=
  let taken := c.rest.takeWhile p
  (taken, c.skip taken.length)

/-- The place after the next characters of a class. -/
def skipWhile (p : Char → Bool) (c : Cursor) : Cursor :=
  (c.span p).2

def skipSpaces (c : Cursor) : Cursor :=
  c.skipWhile (· = ' ')

/-- The place at the end of a comment, if one begins here. -/
def skipComment (c : Cursor) : Cursor :=
  if c.rest.head? = some '#' then c.skipWhile (!isBreak ·) else c

/-- The value of a break that stands here, and the place after it. -/
def break? (c : Cursor) : Option (Char × Cursor) :=
  match c.rest with
  | ch :: _ => if isBreak ch then some (breakValue ch, c.next) else none
  | [] => none

/-- Whether a mark of three equal characters stands here as a word of its own. -/
def atMark (mark : Char) (c : Cursor) : Bool :=
  [mark, mark, mark].isPrefixOf c.rest && atBlank (c.rest.drop 3)

/-- Whether a mark between documents stands here. -/
def atDocumentMark (c : Cursor) : Bool :=
  c.atMark '-' || c.atMark '.'

end Cursor

end NestedTables.Yaml
