import NestedTables.Yaml.Cursor

/-!
# The state of a written text

Where YAML may break a line, and how much a new line is set in, depends on what has been
written on the line so far. A `Pen` is a text with what there is to know of its last line.
-/

namespace NestedTables.Yaml

/-- A text that is being written. -/
structure Pen where
  /-- The text, the last character first. -/
  written : List Char := []
  column : Nat := 0
  /-- Whether a mark may follow without a space. -/
  spaced : Bool := true
  /-- Whether the line holds nothing but spaces and the marks of blocks. -/
  bare : Bool := true

namespace Pen

/-- The column after which a line is broken where it can be. -/
def width : Nat := 80

/-- The text that has been written. -/
def text (p : Pen) : String :=
  String.ofList p.written.reverse

/-- Writes characters that do not break the line. -/
def put (cs : List Char) (p : Pen) : Pen :=
  { p with written := cs.reverse ++ p.written, column := p.column + cs.length }

/-- Breaks the line. -/
def breakLine (c : Char) (p : Pen) : Pen :=
  { written := c :: p.written, column := 0, spaced := true, bare := true }

/-- Goes to a column: on this line if it holds only marks of blocks and is short enough, and
on a new line otherwise. -/
def toColumn (column : Nat) (p : Pen) : Pen :=
  let p :=
    if !p.bare || p.column > column || (p.column = column && !p.spaced) then p.breakLine '\n'
    else p
  if p.column < column then
    { p.put (List.replicate (column - p.column) ' ') with spaced := true }
  else p

/-- Begins or ends text inside a line. -/
def inText (p : Pen) : Pen :=
  { p with spaced := false, bare := false }

/-- Writes a mark, with a space before it if one is needed. -/
def mark (cs : List Char) (p : Pen) : Pen :=
  (p.put (if p.spaced then cs else ' ' :: cs)).inText

/-- Writes a mark that ends what stands right before it. -/
def closingMark (cs : List Char) (p : Pen) : Pen :=
  (p.put cs).inText

/-- Writes the mark of a block, after which the line still holds only such marks if it did. -/
def blockMark (cs : List Char) (p : Pen) : Pen :=
  { p.mark cs with bare := p.bare }

end Pen

end NestedTables.Yaml
