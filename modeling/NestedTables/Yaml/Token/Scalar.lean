import NestedTables.Yaml.Token

/-!
# The text of scalars

A scalar is written plain, between quotes, or as a block of lines. Each form has its way to
fold line breaks: a single break between two lines of text is a space, and of several breaks
the first is left out. A break that Unicode calls a separator is kept as it is.
-/

namespace NestedTables.Yaml

/-! ### Folding -/

/-- What stands for a line break followed by more breaks. -/
def folded (first : Char) (more : List Char) : List Char :=
  if first ≠ '\n' then first :: more
  else if more.isEmpty then [' ']
  else more

/-! ### Plain scalars -/

/-- Whether a character ends a plain scalar; `after` is what follows it. -/
def endsPlain (inFlow : Bool) (c : Char) (after : List Char) : Bool :=
  isSpaceOrTab c || isBreak c ||
    (c = ':' && (atBlank after || (inFlow && endsOr (",[]{}".toList.contains ·) after))) ||
    (inFlow && ",?[]{}".toList.contains c)

/-- The characters of a plain scalar up to the next blank. -/
def plainRun (inFlow : Bool) : List Char → List Char
  | [] => []
  | c :: rest => if endsPlain inFlow c rest then [] else c :: plainRun inFlow rest

/-- The blanks inside a plain scalar. -/
structure PlainGap where
  /-- What stands for them, which is nothing if the scalar ends here. -/
  text : List Char
  cursor : Cursor
  /-- Whether the line ended. -/
  lineEnded : Bool

/-- The breaks after a first one, up to a character that is no space or to a mark between
documents; nothing if that mark is there. -/
def moreBreaks : Nat → List Char → Cursor → Option (List Char) × Cursor
  | 0, breaks, c => (some breaks, c)
  | fuel + 1, breaks, c =>
    if c.atDocumentMark && c.column = 0 then (none, c)
    else
      let c := c.skipSpaces
      match c.break? with
      | some (b, c) => moreBreaks fuel (breaks ++ [b]) c
      | none => (some breaks, c)

def plainGap (c : Cursor) : PlainGap :=
  let (spaces, c) := c.span (· = ' ')
  match c.break? with
  | none => ⟨spaces, c, false⟩
  | some (first, c) =>
    match moreBreaks (c.rest.length + 1) [] c with
    | (some breaks, c) => ⟨folded first breaks, c, true⟩
    | (none, c) => ⟨[], c, true⟩

/-- A plain scalar that has been read. -/
structure PlainScalar where
  text : List Char
  cursor : Cursor
  /-- Whether it ends with the end of a line. -/
  lineEnded : Bool

/-- Reads on in a plain scalar. `indent` is the least column of its lines, and `gap` what
stands between `text` and what comes next. -/
def plainFrom (inFlow : Bool) (indent : Nat) :
    Nat → (text gap : List Char) → (lineEnded : Bool) → Cursor → PlainScalar
  | 0, text, _, lineEnded, c => ⟨text, c, lineEnded⟩
  | fuel + 1, text, gap, lineEnded, c =>
    let run := if c.rest.head? = some '#' then [] else plainRun inFlow c.rest
    if run.isEmpty then ⟨text, c, lineEnded⟩
    else
      let text := text ++ gap ++ run
      let gap := plainGap (c.skip run.length)
      if gap.text.isEmpty || gap.cursor.rest.head? = some '#' ||
          (!inFlow && gap.cursor.column < indent) then
        ⟨text, gap.cursor, gap.lineEnded⟩
      else plainFrom inFlow indent fuel text gap.text gap.lineEnded gap.cursor

/-- Reads a plain scalar. -/
def plainScalar (inFlow : Bool) (indent : Nat) (c : Cursor) : PlainScalar :=
  plainFrom inFlow indent (c.rest.length + 1) [] [] false c

/-! ### Scalars between quotes -/

/-- The character that an escape of one letter stands for. -/
def escapeValue? (c : Char) : Option Char :=
  match c with
  | '0' => some '\x00'
  | 'a' => some '\x07'
  | 'b' => some '\x08'
  | 't' | '\t' => some '\t'
  | 'n' => some '\n'
  | 'v' => some '\x0b'
  | 'f' => some '\x0c'
  | 'r' => some '\r'
  | 'e' => some '\x1b'
  | ' ' | '"' | '\\' | '/' => some c
  | 'N' => some '\u0085'
  | '_' => some '\u00a0'
  | 'L' => some '\u2028'
  | 'P' => some '\u2029'
  | _ => none

/-- The number of hexadecimal digits after the letter of an escape. -/
def escapeWidth? (c : Char) : Option Nat :=
  match c with
  | 'x' => some 2
  | 'u' => some 4
  | 'U' => some 8
  | _ => none

/-- The breaks inside a quoted scalar, after a first one, and the blanks around them. No mark
between documents may stand there. -/
def quotedBreaks : Nat → List Char → Cursor → Except Fault (List Char × Cursor)
  | 0, breaks, c => .ok (breaks, c)
  | fuel + 1, breaks, c =>
    if c.atDocumentMark then .error .malformed
    else
      let c := c.skipWhile isSpaceOrTab
      match c.break? with
      | some (b, c) => quotedBreaks fuel (breaks ++ [b]) c
      | none => .ok (breaks, c)

/-- What an escape stands for, from the character after its backslash on. -/
def escape (c : Cursor) : Except Fault (List Char × Cursor) :=
  match c.rest with
  | [] => .error .malformed
  | ch :: digits =>
    match escapeValue? ch, escapeWidth? ch with
    | some v, _ => .ok ([v], c.next)
    | none, some width =>
      match Text.hexNumber? (digits.take width) with
      | some code =>
        if (digits.take width).length < width then .error .malformed
        else if h : code.isValidChar then .ok ([Char.ofNatAux code h], c.skip (width + 1))
        else if code < 0x110000 then .error .loneSurrogate
        else .error (.noCharacter code)
      | none => .error .malformed
    | none, none =>
      match c.break? with
      | some (_, c) => quotedBreaks (c.rest.length + 1) [] c
      | none => .error .malformed

/-- What the blanks inside a quoted scalar stand for. -/
def quotedGap (c : Cursor) : Except Fault (List Char × Cursor) :=
  let (blanks, c) := c.span isSpaceOrTab
  match c.break? with
  | some (first, c) =>
    (quotedBreaks (c.rest.length + 1) [] c).map fun (breaks, c) => (folded first breaks, c)
  | none => if c.rest.isEmpty then .error .malformed else .ok (blanks, c)

/-- Reads on in a quoted scalar up to its closing quote. A single quote is written twice
between single quotes; a backslash begins an escape between double ones. -/
def quotedFrom (double : Bool) : Nat → List Char → Cursor → Except Fault (List Char × Cursor)
  | 0, _, _ => .error .malformed
  | fuel + 1, text, c =>
    match c.rest with
    | [] => .error .malformed
    | '\'' :: '\'' :: _ =>
      if double then quotedFrom double fuel (text ++ ['\'']) c.next
      else quotedFrom double fuel (text ++ ['\'']) (c.skip 2)
    | ch :: _ =>
      if ch = (if double then '"' else '\'') then .ok (text, c.next)
      else if double && ch = '\\' then
        match escape c.next with
        | .ok (v, c) => quotedFrom double fuel (text ++ v) c
        | .error e => .error e
      else if isSpaceOrTab ch || isBreak ch then
        match quotedGap c with
        | .ok (gap, c) => quotedFrom double fuel (text ++ gap) c
        | .error e => .error e
      else quotedFrom double fuel (text ++ [ch]) c.next

/-- Reads a quoted scalar from its opening quote on. -/
def quotedScalar (double : Bool) (c : Cursor) : Except Fault (List Char × Cursor) :=
  quotedFrom double (c.rest.length + 1) [] c.next

/-! ### Blocks of lines -/

/-- What is done with the breaks at the end of a block. -/
inductive Chomping
  /-- One break is kept. -/
  | clip
  /-- No break is kept. -/
  | strip
  /-- All breaks are kept. -/
  | keep
deriving DecidableEq, Repr

/-- The sign of a chomping. -/
def chomping? : List Char → Option (Chomping × List Char)
  | '+' :: rest => some (.keep, rest)
  | '-' :: rest => some (.strip, rest)
  | _ => none

/-- The digit of an indentation; zero is refused. -/
def indentation? : List Char → Except Fault (Option Nat × List Char)
  | c :: rest =>
    if '1' ≤ c ∧ c ≤ '9' then .ok (some (c.toNat - 0x30), rest)
    else if c = '0' then .error .malformed
    else .ok (none, c :: rest)
  | [] => .ok (none, [])

/-- The header of a block after its first character: a sign and a digit in either order. -/
def blockHeader (cs : List Char) : Except Fault (Chomping × Option Nat × List Char) :=
  match chomping? cs with
  | some (chomping, cs) => (indentation? cs).map fun (n, cs) => (chomping, n, cs)
  | none =>
    match indentation? cs with
    | .error e => .error e
    | .ok (none, cs) => .ok (.clip, none, cs)
    | .ok (some n, cs) =>
      match chomping? cs with
      | some (chomping, cs) => .ok (chomping, some n, cs)
      | none => .ok (.clip, some n, cs)

/-- The place after the rest of a line that has only a comment. -/
def emptyLineRest (c : Cursor) : Except Fault Cursor :=
  let c := c.skipSpaces.skipComment
  match c.break? with
  | some (_, c) => .ok c
  | none => if c.rest.isEmpty then .ok c else .error .malformed

/-- The breaks before the first line of a block, and its widest indentation so far. -/
def leadingBreaks : Nat → List Char → Nat → Cursor → List Char × Nat × Cursor
  | 0, breaks, widest, c => (breaks, widest, c)
  | fuel + 1, breaks, widest, c =>
    let spaces := c.skipSpaces
    let widest := if spaces.index = c.index then widest else max widest spaces.column
    match spaces.break? with
    | some (b, c) => leadingBreaks fuel (breaks ++ [b]) widest c
    | none => (breaks, widest, spaces)

/-- The place after the spaces up to a column. -/
def indentTo : Nat → Nat → Cursor → Cursor
  | 0, _, c => c
  | fuel + 1, indent, c =>
    if c.column < indent && c.rest.head? = some ' ' then indentTo fuel indent c.next else c

/-- The breaks between two lines of a block. -/
def blockBreaks : Nat → Nat → List Char → Cursor → List Char × Cursor
  | 0, _, breaks, c => (breaks, c)
  | fuel + 1, indent, breaks, c =>
    let c := indentTo (c.rest.length + 1) indent c
    match c.break? with
    | some (b, c) => blockBreaks fuel indent (breaks ++ [b]) c
    | none => (breaks, c)

/-- The end of a block, of which `last` is the break after its last line and `breaks` are
those that follow. -/
def chomped (chomping : Chomping) (last breaks : List Char) : List Char :=
  match chomping with
  | .strip => []
  | .clip => last
  | .keep => last ++ breaks

/-- Reads the lines of a block. A fold is made between two lines of which neither begins with
a blank. -/
def blockLines (folds : Bool) (chomping : Chomping) (indent : Nat) :
    Nat → (text last breaks : List Char) → Cursor → List Char × Cursor
  | 0, text, _, _, c => (text, c)
  | fuel + 1, text, last, breaks, c =>
    if c.column ≠ indent || c.rest.isEmpty then (text ++ chomped chomping last breaks, c)
    else
      let flush := !(c.rest.head?.any isSpaceOrTab)
      let (line, c) := c.span (!isBreak ·)
      let text := text ++ breaks ++ line
      let (last, c) := match c.break? with
        | some (b, c) => ([b], c)
        | none => ([], c)
      let (breaks, c) := blockBreaks (c.rest.length + 1) indent [] c
      if c.column = indent && !c.rest.isEmpty then
        let joint :=
          if folds && last = ['\n'] && flush && !(c.rest.head?.any isSpaceOrTab) then
            if breaks.isEmpty then [' '] else []
          else last
        blockLines folds chomping indent fuel (text ++ joint) last breaks c
      else (text ++ chomped chomping last breaks, c)

/-- Reads a block from its first character on; `least` is the least column of its lines. -/
def blockScalar (folds : Bool) (least : Nat) (c : Cursor) :
    Except Fault (List Char × Cursor) :=
  match blockHeader c.next.rest with
  | .error e => .error e
  | .ok (chomping, width, rest) =>
    let c := c.skip (c.rest.length - rest.length)
    if !atSpace c.rest then .error .malformed
    else match emptyLineRest c with
      | .error e => .error e
      | .ok c =>
        let (breaks, indent, c) := match width with
          | none =>
            let (breaks, widest, c) := leadingBreaks (c.rest.length + 1) [] 0 c
            (breaks, max least widest, c)
          | some n =>
            let indent := least + n - 1
            let (breaks, c) := blockBreaks (c.rest.length + 1) indent [] c
            (breaks, indent, c)
        .ok (blockLines folds chomping indent (c.rest.length + 1) [] [] breaks c)

end NestedTables.Yaml
