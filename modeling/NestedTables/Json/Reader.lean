import NestedTables.Document.Value
import NestedTables.Text.DigitLimit
import NestedTables.Text.Hex

/-!
# Reading JSON

`Json.read` reads a text as one JSON value. Two liberties are allowed: the words `NaN`,
`Infinity` and `-Infinity` are numbers, and a property may be repeated, in which case it
keeps its first place and its last value. Numbers without a point or an exponent are
integers, of as many digits as `Text.mostDigits` allows; the others are doubles.

A text that is not JSON is refused at its first fault. The reader works on what is left of
the text, so a fault knows how many characters follow it, and `Failure.message` counts lines
and columns from that.

JSON can escape surrogates that stand alone. A text that does so is JSON, but what it writes is
no text here, since there is no such character. It is told apart from texts with another fault:
it is read with a stand-in for such surrogates first, which finds all other faults, and refused
for its surrogates after that.

Every function that goes down into a value takes a bound on the steps it may still take. A
list or an object takes two for a character, one as a value and one for its members, so
`Json.read` allows a little more than twice as many as there are characters.
-/

namespace NestedTables.Json

/-- What a text lacks to be JSON. -/
inductive Fault
  | byteOrderMark
  | value
  | propertyName
  | colon
  | comma
  | extraData
  | controlCharacter
  | escape
  | unicodeEscape
  | unterminatedText
  /-- A surrogate that stands alone. The text is JSON all the same. -/
  | loneSurrogate
  /-- An integer with so many digits that it is not read. The text may be JSON all the same. -/
  | tooManyDigits (digits : Nat)
deriving DecidableEq, Repr

def Fault.message : Fault → String
  | .byteOrderMark => "Unexpected UTF-8 BOM (decode using utf-8-sig)"
  | .value => "Expecting value"
  | .propertyName => "Expecting property name enclosed in double quotes"
  | .colon => "Expecting ':' delimiter"
  | .comma => "Expecting ',' delimiter"
  | .extraData => "Extra data"
  | .controlCharacter => "Invalid control character at"
  | .escape => "Invalid \\escape"
  | .unicodeEscape => "Invalid \\uXXXX escape"
  | .unterminatedText => "Unterminated string starting at"
  | .loneSurrogate => "Surrogate without another one"
  | .tooManyDigits digits => Text.unreadable digits

/-- A fault, and how many characters there are from its place to the end of the text. -/
structure Failure where
  fault : Fault
  remaining : Nat
deriving DecidableEq, Repr

/-- The fault with the line, the column and the position of its place. -/
def Failure.message (text : List Char) (f : Failure) : String :=
  let position := text.length - f.remaining
  let before := text.take position
  let line := before.count '\n' + 1
  let column := (before.reverse.takeWhile (· ≠ '\n')).length + 1
  s!"{f.fault.message}: line {line} column {column} (char {position})"

def isBlank (c : Char) : Bool :=
  c = ' ' || c = '\t' || c = '\n' || c = '\r'

def skipBlanks (cs : List Char) : List Char :=
  cs.dropWhile isBlank

/-- The character that stands for itself or another one after a backslash. -/
def escaped? (c : Char) : Option Char :=
  if c = '"' ∨ c = '\\' ∨ c = '/' then some c
  else if c = 'b' then some '\x08'
  else if c = 'f' then some '\x0c'
  else if c = 'n' then some '\n'
  else if c = 'r' then some '\r'
  else if c = 't' then some '\t'
  else none

/-- The four digits of a unicode escape; at least one more character has to follow them. -/
def codeUnit? (cs : List Char) : Option Nat :=
  if (cs.drop 4).isEmpty then none else Text.hexNumber? (cs.take 4)

def isHighSurrogate (n : Nat) : Bool := 0xd800 ≤ n && n ≤ 0xdbff
def isLowSurrogate (n : Nat) : Bool := 0xdc00 ≤ n && n ≤ 0xdfff

/-- The code point of two surrogates. -/
def joinSurrogates (high low : Nat) : Nat :=
  0x10000 + (high - 0xd800) * 0x400 + (low - 0xdc00)

/-- The code point of a unicode escape; `cs` is what follows the letter. -/
def unicodeEscape (cs : List Char) : Except Failure (Nat × List Char) :=
  match codeUnit? cs with
  | none => .error ⟨.unicodeEscape, cs.length + 1⟩
  | some high =>
    match isHighSurrogate high && !(cs.drop 10).isEmpty, cs.drop 4 with
    | true, '\\' :: 'u' :: more =>
      match codeUnit? more with
      | none => .error ⟨.unicodeEscape, more.length + 1⟩
      | some low =>
        if isLowSurrogate low then .ok (joinSurrogates high low, more.drop 4)
        else .ok (high, cs.drop 4)
    | _, rest => .ok (high, rest)

section Reading

-- what stands in for a surrogate that stands alone, if that is allowed
variable (standIn : Option Char)

/-- The character of a code point. -/
def character? (code : Nat) : Option Char :=
  if code.isValidChar then some (Char.ofNat code) else standIn

/-- Reads a text after its first quote, up to and with its last; `start` is everything from the
first quote on. -/
def textBody (start : List Char) : Nat → List Char → Except Failure (List Char × List Char)
  | 0, _ => .error ⟨.unterminatedText, start.length⟩
  | _ + 1, [] => .error ⟨.unterminatedText, start.length⟩
  | bound + 1, c :: rest =>
    if c = '"' then .ok ([], rest)
    else if c = '\\' then
      match rest with
      | [] => .error ⟨.unterminatedText, start.length⟩
      | letter :: rest =>
        if letter = 'u' then do
          let (code, more) ← unicodeEscape rest
          match character? standIn code with
          | none => .error ⟨.loneSurrogate, rest.length + 2⟩
          | some decoded => do
            let (tail, rest) ← textBody start bound more
            return (decoded :: tail, rest)
        else match escaped? letter with
          | none => .error ⟨.escape, rest.length + 2⟩
          | some decoded => do
            let (tail, rest) ← textBody start bound rest
            return (decoded :: tail, rest)
    else if c.toNat ≤ 0x1f then .error ⟨.controlCharacter, rest.length + 1⟩
    else do
      let (tail, rest) ← textBody start bound rest
      return (c :: tail, rest)

/-- The words that are values. -/
def words : List (String × Value) :=
  [("null", .null), ("true", .bool true), ("false", .bool false),
    ("NaN", .real (.notNumber 0)),
    ("Infinity", .real (.ofSign false Double.infinityBits)),
    ("-Infinity", .real (.ofSign true Double.infinityBits))]

/-- The number that decimal digits write. -/
def digitsValue (ds : List Char) : Nat :=
  ds.foldl (fun n c => 10 * n + (c.toNat - 0x30)) 0

/-- The digits before the point: a zero alone, or digits that start with no zero. -/
def wholeDigits (cs : List Char) : List Char :=
  match cs with
  | '0' :: _ => ['0']
  | _ => cs.takeWhile Char.isDigit

/-- The digits after a point, if there is a point with digits after it. -/
def placeDigits (cs : List Char) : List Char :=
  match cs with
  | '.' :: rest => rest.takeWhile Char.isDigit
  | _ => []

/-- The number of characters and the value of an exponent, if there is one with digits. -/
def exponentPart? (cs : List Char) : Option (Nat × Int) :=
  match cs with
  | letter :: rest =>
    if letter = 'e' ∨ letter = 'E' then
      let negative := rest.head? = some '-'
      let marked := negative || rest.head? = some '+'
      let ds := (if marked then rest.drop 1 else rest).takeWhile Char.isDigit
      if ds.isEmpty then none
      else some (1 + (if marked then 1 else 0) + ds.length,
        if negative then -(digitsValue ds : Int) else digitsValue ds)
    else none
  | [] => none

/-- Reads a number off the front of the text. -/
def number (cs : List Char) : Except Failure (Value × List Char) :=
  let negative := cs.head? = some '-'
  let body := if negative then cs.drop 1 else cs
  let whole := wholeDigits body
  if whole.isEmpty then .error ⟨.value, cs.length⟩
  else
    let rest := body.drop whole.length
    let places := placeDigits rest
    let rest := if places.isEmpty then rest else rest.drop (places.length + 1)
    match exponentPart? rest with
    | none =>
      let n := digitsValue (whole ++ places)
      if !places.isEmpty then .ok (.real (.ofDecimal negative n (-places.length)), rest)
      else if whole.length > Text.mostDigits then
        .error ⟨.tooManyDigits whole.length, cs.length⟩
      else .ok (.int (if negative then -n else n), rest)
    | some (size, e) =>
      .ok (.real (.ofDecimal negative (digitsValue (whole ++ places)) (e - places.length)),
        rest.drop size)

/-- Reads a word or a number off the front of the text. -/
def atom (cs : List Char) : Except Failure (Value × List Char) :=
  match words.find? fun w => w.1.toList.isPrefixOf cs with
  | some (word, v) => .ok (v, cs.drop word.length)
  | none => number cs

mutual

/-- Reads a value off the front of the text. -/
def value : Nat → List Char → Except Failure (Value × List Char)
  | 0, cs => .error ⟨.value, cs.length⟩
  | _ + 1, [] => .error ⟨.value, 0⟩
  | bound + 1, c :: rest =>
    if c = '"' then
      (textBody standIn (c :: rest) bound rest).map fun (s, rest) =>
        (.text (String.ofList s), rest)
    else if c.toNat = 0x7b then
      match skipBlanks rest with
      | [] => .error ⟨.propertyName, 0⟩
      | d :: more =>
        if d.toNat = 0x7d then .ok (.map [], more)
        else (members bound (d :: more)).map fun (es, rest) => (.map (Entries.ofPairs es), rest)
    else if c = '[' then
      match skipBlanks rest with
      | ']' :: more => .ok (.list [], more)
      | more => (items bound more).map fun (vs, rest) => (.list vs, rest)
    else atom (c :: rest)

/-- Reads the properties of an object after its opening brace, and the closing one. -/
def members : Nat → List Char → Except Failure (List (Scalar × Value) × List Char)
  | 0, cs => .error ⟨.propertyName, cs.length⟩
  | bound + 1, cs =>
    match cs with
    | '"' :: rest => do
      let (key, rest) ← textBody standIn ('"' :: rest) bound rest
      match skipBlanks rest with
      | ':' :: rest =>
        let (v, rest) ← value bound (skipBlanks rest)
        let entry := (Scalar.text (String.ofList key), v)
        match skipBlanks rest with
        | ',' :: rest =>
          let (es, rest) ← members bound (skipBlanks rest)
          return (entry :: es, rest)
        | [] => .error ⟨.comma, 0⟩
        | d :: rest =>
          if d.toNat = 0x7d then return ([entry], rest)
          else .error ⟨.comma, rest.length + 1⟩
      | rest => .error ⟨.colon, rest.length⟩
    | _ => .error ⟨.propertyName, cs.length⟩

/-- Reads the members of an array after its opening bracket, and the closing one. -/
def items : Nat → List Char → Except Failure (List Value × List Char)
  | 0, cs => .error ⟨.value, cs.length⟩
  | bound + 1, cs => do
    let (v, rest) ← value bound cs
    match skipBlanks rest with
    | ',' :: rest =>
      let (vs, rest) ← items bound (skipBlanks rest)
      return (v :: vs, rest)
    | ']' :: rest => return ([v], rest)
    | rest => .error ⟨.comma, rest.length⟩

end

/-- The value that a list of characters writes, with or without a stand-in. -/
def readWith (cs : List Char) : Except Failure Value :=
  if cs.head? = some '\ufeff' then .error ⟨.byteOrderMark, cs.length⟩
  else match value standIn (2 * cs.length + 2) (skipBlanks cs) with
    | .error f => .error f
    | .ok (v, rest) =>
      match skipBlanks rest with
      | [] => .ok v
      | rest => .error ⟨.extraData, rest.length⟩

end Reading

/-- The value that a list of characters writes. -/
def readChars (cs : List Char) : Except Failure Value :=
  match readWith (some '\ufffd') cs with
  | .error f => .error f
  | .ok _ => readWith none cs

/-- The value that a text writes. -/
def read (s : String) : Except Failure Value :=
  readChars s.toList

end NestedTables.Json
