import NestedTables.Yaml.Cursor
import NestedTables.Yaml.Tag

/-!
# How a text is written as a scalar

A text is written plain if it can be: if reading it would give the text back, and not a number
or a mark of the notation. Otherwise it stands between single quotes, unless it has a
character that needs an escape, or a line that would lose a space; then between double ones.
No text is written as a block.
-/

namespace NestedTables.Yaml

/-- The ways to write a text. -/
inductive ScalarStyle
  | plain
  | single
  | double
deriving DecidableEq, Repr

namespace ScalarStyle

/-- Whether a character is written as it stands in a text without escapes. -/
def isShown (c : Char) : Bool :=
  let n := c.toNat
  c = '\n' || (0x20 ≤ n && n ≤ 0x7e) || n = 0x85 || (0xa0 ≤ n && n ≤ 0xd7ff) ||
    (0xe000 ≤ n && n ≤ 0xfffd && c ≠ byteOrderMark) || (0x10000 ≤ n && n < 0x10ffff)

/-- Whether a character counts as a blank next to a mark. -/
def isAnyBlank (c : Char) : Bool :=
  c = '\x00' || isSpaceOrTab c || c = '\r' || isBreak c

/-- Whether a text begins like a mark of the notation. -/
def beginsLikeMark (cs : List Char) : Bool :=
  match cs with
  | c :: rest =>
    "#,[]\x7b\x7d&*!|>'\"%@`".toList.contains c ||
      ("?:-".toList.contains c && endsOr isAnyBlank rest) ||
      "---".toList.isPrefixOf cs || "...".toList.isPrefixOf cs
  | [] => false

/-- Whether a text has a colon before a blank or a number sign after one; `afterBlank` says
whether a blank stands right before it. -/
def holdsMark (afterBlank : Bool) : List Char → Bool
  | [] => false
  | c :: rest =>
    (c = ':' && endsOr isAnyBlank rest) || (c = '#' && afterBlank) ||
      holdsMark (isAnyBlank c) rest

/-- Whether a text has a character of one class right before one of another. -/
def holdsPair (p q : Char → Bool) : List Char → Bool
  | a :: b :: rest => (p a && q b) || holdsPair p q (b :: rest)
  | _ => false

def isSpace (c : Char) : Bool := c = ' '

/-- Whether a text has a line break. -/
def isMultiline (cs : List Char) : Bool :=
  cs.any isBreak

/-- Whether a text needs no quotes, apart from what it might be read as. -/
def canBePlain (cs : List Char) : Bool :=
  cs.all isShown && !isMultiline cs && !(cs.head?.any isSpace) && !(cs.getLast?.any isSpace) &&
    !beginsLikeMark cs && !holdsMark (cs.head?.any isAnyBlank) cs.tail

/-- Whether a text can stand between single quotes. -/
def canBeSingle (cs : List Char) : Bool :=
  cs.all isShown && !holdsPair isSpace isBreak cs && !holdsPair isBreak isSpace cs

/-- The way to write a text; an empty text is quoted. -/
def ofText (s : String) : ScalarStyle :=
  let cs := s.toList
  if Tag.ofPlain s = .str && canBePlain cs then .plain
  else if canBeSingle cs then .single
  else .double

end ScalarStyle

end NestedTables.Yaml
