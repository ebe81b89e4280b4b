import NestedTables.Document.Display
import NestedTables.Yaml.Pen
import NestedTables.Yaml.ScalarStyle

/-!
# Writing YAML

A mapping is written as a block: every entry begins a line, a mapping under a key is set in by
two columns, and a sequence under a key is not set in. A member of a sequence that is a
collection itself begins on the line of its hyphen. A collection without members is written
as a pair of brackets.

A text is broken after eighty columns, at a single space between words. A key that is empty,
long or of more than one line is marked by a question mark.
-/

namespace NestedTables.Yaml

/-- Numbers in YAML need a point before an exponent. -/
def numbers : DecimalLayout :=
  { messageNumbers with
    pointBeforeExponent := true
    notANumber := ".nan"
    infinity := ".inf"
    negativeInfinity := "-.inf" }

/-! ### Texts -/

/-- The kinds of characters that are written in runs. -/
inductive RunKind
  | spaces
  | breaks
  | others
deriving DecidableEq, Repr

def RunKind.of (c : Char) : RunKind :=
  if c = ' ' then .spaces else if isBreak c then .breaks else .others

/-- A text in runs of characters of one kind. -/
def runs : List Char → List (RunKind × List Char)
  | [] => []
  | c :: rest =>
    match runs rest with
    | (k, run) :: more =>
      if RunKind.of c = k then (k, c :: run) :: more
      else (.of c, [c]) :: (k, run) :: more
    | [] => [(.of c, [c])]

/-- Whether a line is broken at a run: at a single space past the width. -/
def breaksAt (splits : Bool) (p : Pen) (run : List Char) : Bool :=
  splits && run = [' '] && p.column > Pen.width

/-- Writes the runs of a plain text; broken lines are set in to `column`. -/
def plainRuns (splits : Bool) (column : Nat) : List (RunKind × List Char) → Pen → Pen
  | [], p => p
  | (_, run) :: more, p =>
    plainRuns splits column more <|
      if breaksAt splits p run then (p.toColumn column).inText else p.put run

def plainText (splits : Bool) (column : Nat) (cs : List Char) (p : Pen) : Pen :=
  plainRuns splits column (runs cs) (p.mark [])

/-- Writes the runs between single quotes. A run of line breaks that begins with a line feed
gets one more, and a single quote is written twice. -/
def singleRuns (splits : Bool) (column : Nat) :
    (first : Bool) → List (RunKind × List Char) → Pen → Pen
  | _, [], p => p
  | first, (kind, run) :: more, p =>
    singleRuns splits column false more <|
      match kind with
      | .spaces =>
        if breaksAt splits p run && !first && !more.isEmpty then p.toColumn column
        else p.put run
      | .breaks =>
        let p := if run.head? = some '\n' then p.breakLine '\n' else p
        (run.foldl (fun p c => p.breakLine c) p).toColumn column
      | .others => p.put (run.flatMap fun c => if c = '\'' then ['\'', '\''] else [c])

def singleText (splits : Bool) (column : Nat) (cs : List Char) (p : Pen) : Pen :=
  (singleRuns splits column true (runs cs) (p.mark ['\''])).closingMark ['\'']

/-- Whether a character is written as it stands between double quotes. -/
def isDoubleShown (c : Char) : Bool :=
  let n := c.toNat
  c ≠ '"' && c ≠ '\\' && c ≠ '\u2028' && c ≠ '\u2029' && c ≠ byteOrderMark &&
    ((0x20 ≤ n && n ≤ 0x7e) || (0xa0 ≤ n && n ≤ 0xd7ff) || (0xe000 ≤ n && n ≤ 0xfffd))

/-- The letter of an escape, if a character has one. -/
def escapeLetter? (c : Char) : Option Char :=
  match c with
  | '\x00' => some '0'
  | '\x07' => some 'a'
  | '\x08' => some 'b'
  | '\t' => some 't'
  | '\n' => some 'n'
  | '\x0b' => some 'v'
  | '\x0c' => some 'f'
  | '\r' => some 'r'
  | '\x1b' => some 'e'
  | '"' => some '"'
  | '\\' => some '\\'
  | '\u0085' => some 'N'
  | '\u00a0' => some '_'
  | '\u2028' => some 'L'
  | '\u2029' => some 'P'
  | _ => none

/-- The escape of a character. -/
def escaped (c : Char) : List Char :=
  let digits (width : Nat) := (Text.hexDigits width c.toNat).map Char.toUpper
  match escapeLetter? c with
  | some letter => ['\\', letter]
  | none =>
    if c.toNat ≤ 0xff then '\\' :: 'x' :: digits 2
    else if c.toNat ≤ 0xffff then '\\' :: 'u' :: digits 4
    else '\\' :: 'U' :: digits 8

/-- Breaks a line between double quotes, after what is `pending`. A space at the beginning of
the new line is escaped. -/
def breakDouble (column : Nat) (pending after : List Char) (p : Pen) : Pen :=
  let p := ((p.put (pending ++ ['\\'])).toColumn column).inText
  if after.head? = some ' ' then p.put ['\\'] else p

/-- Writes on between double quotes; `pending` has been read but not written. A line can be
broken before a space and next to an escape. -/
def doubleFrom (splits : Bool) (column : Nat) :
    (first : Bool) → (pending : List Char) → List Char → Pen → Pen
  | _, pending, [], p => p.put pending
  | first, pending, c :: rest, p =>
    let canBreak := splits && !first && !rest.isEmpty
    if isDoubleShown c then
      if canBreak && (c = ' ' || pending.isEmpty) && p.column + pending.length > Pen.width then
        doubleFrom splits column false [c] rest (breakDouble column pending (c :: rest) p)
      else doubleFrom splits column false (pending ++ [c]) rest p
    else
      let p := (p.put pending).put (escaped c)
      doubleFrom splits column false [] rest <|
        if canBreak && p.column > Pen.width + 1 then breakDouble column [] rest p else p

def doubleText (splits : Bool) (column : Nat) (cs : List Char) (p : Pen) : Pen :=
  (doubleFrom splits column true [] cs (p.mark ['"'])).closingMark ['"']

/-- Writes a text in its style. -/
def writeText (splits : Bool) (column : Nat) (s : String) (p : Pen) : Pen :=
  match ScalarStyle.ofText s with
  | .plain => plainText splits column s.toList p
  | .single => singleText splits column s.toList p
  | .double => doubleText splits column s.toList p

/-! ### Values -/

/-- Writes a scalar. Dates and bytes are written as texts. -/
def writeScalar (splits : Bool) (column : Nat) (s : Scalar) (p : Pen) : Pen :=
  match s with
  | .null => plainText splits column "null".toList p
  | .bool b => plainText splits column (if b then "true".toList else "false".toList) p
  | .int n => plainText splits column (toString n).toList p
  | .real x => plainText splits column (numbers.render x) p
  | s => writeText splits column s.plain p

/-- The number of characters from which on a key is too long to stand without its mark. -/
def longKey : Nat := 123

/-- Whether a key can stand without its mark. -/
def isSimpleKey (k : String) : Bool :=
  k ≠ "" && !ScalarStyle.isMultiline k.toList && k.length < longKey

/-- Writes a key and the mark before its value. -/
def writeKey (column : Nat) (key : Scalar) (p : Pen) : Pen :=
  let p := p.toColumn column
  if isSimpleKey key.plain then (writeScalar false (column + 2) key p).closingMark [':']
  else
    let p := writeScalar true (column + 2) key (p.blockMark ['?'])
    (p.toColumn column).blockMark [':']

/-- The column of the members of a sequence inside a collection that is set in to `column`;
`underKey` says whether the sequence is the value of an entry. -/
def itemColumn (column : Nat) (underKey : Bool) (p : Pen) : Nat :=
  if underKey && !p.bare then column else column + 2

/-- Begins a member of a sequence. -/
def beginItem (column : Nat) (p : Pen) : Pen :=
  (p.toColumn column).blockMark ['-']

/-- Writes a scalar as a member of a sequence. -/
def writeItem (column : Nat) (s : Scalar) (p : Pen) : Pen :=
  writeScalar true (column + 2) s (beginItem column p)

mutual

/-- Writes a value inside a collection that is set in to `column`; `underKey` says whether it
is the value of an entry. -/
def writeValue (column : Nat) (underKey : Bool) : Value → Pen → Pen
  | .scalar s, p => writeScalar true (column + 2) s p
  | .list [], p => p.mark ['[', ']']
  | .list (v :: vs), p => writeItems (itemColumn column underKey p) (v :: vs) p
  | .map [], p => p.mark ['\x7b', '\x7d']
  | .map (e :: es), p => writeEntries (column + 2) (e :: es) p
  | .set [], p => p.mark ['[', ']']
  | .set (m :: ms), p =>
    let column := itemColumn column underKey p
    (m :: ms).foldl (fun p m => writeItem column m p) p
  | .pair a b, p =>
    let column := itemColumn column underKey p
    writeValue column false b (beginItem column (writeValue column false a (beginItem column p)))

/-- Writes the members of a sequence. -/
def writeItems (column : Nat) : List Value → Pen → Pen
  | [], p => p
  | v :: vs, p => writeItems column vs (writeValue column false v (beginItem column p))

/-- Writes the entries of a mapping. -/
def writeEntries (column : Nat) : List (Scalar × Value) → Pen → Pen
  | [], p => p
  | (k, v) :: es, p => writeEntries column es (writeValue column true v (writeKey column k p))

end

/-- A mapping as a text. -/
def write (entries : Fields) : String :=
  let p : Pen := {}
  ((if entries.isEmpty then p.mark ['\x7b', '\x7d'] else writeEntries 0 entries p).toColumn 0).text

end NestedTables.Yaml
