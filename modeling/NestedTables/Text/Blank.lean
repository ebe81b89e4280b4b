/-!
# Blank characters

A *blank* is a character that trimming removes: the spaces of every width, the line and
paragraph separators and the five separating controls. A text is blank when it has no
other character; an override annotation whose text is blank counts as empty.
-/

namespace NestedTables.Text

/-- The ranges of code points of the blank characters, in ascending order. -/
def blankRanges : List (Nat × Nat) :=
  [(0x9, 0xd), (0x1c, 0x20), (0x85, 0x85), (0xa0, 0xa0), (0x1680, 0x1680), (0x2000, 0x200a),
    (0x2028, 0x2029), (0x202f, 0x202f), (0x205f, 0x205f), (0x3000, 0x3000)]

/-- Whether trimming removes `c`. -/
def isBlank (c : Char) : Bool :=
  blankRanges.any fun r => r.1 ≤ c.toNat && c.toNat ≤ r.2

/-- Whether a text has no character but blanks; the empty text has none. -/
def allBlank (s : String) : Bool :=
  s.toList.all isBlank

theorem allBlank_empty : allBlank "" = true := rfl

end NestedTables.Text
