import NestedTables.Text.Blank
import NestedTables.Text.DecimalDigit
import NestedTables.Decimal.Shortest

/-!
# Numbers written by hand

`integer?` and `double?` read a number the lenient way: blanks around it, a sign, decimal
digits of any script, and a single underscore between two digits are allowed. An integer
in base two, eight or sixteen may repeat its base as `0b`, `0o` or `0x`; a double may be
one of the words for infinity and for no number.
-/

namespace NestedTables.Text

/-- The blanks that may stand around a number: all but the four separating controls. -/
def isNumberBlank (c : Char) : Bool :=
  isBlank c && !(0x1c ≤ c.toNat && c.toNat ≤ 0x1f)

/-- A list of characters without the blanks around it. -/
def withoutBlanks (cs : List Char) : List Char :=
  ((cs.dropWhile isNumberBlank).reverse.dropWhile isNumberBlank).reverse

/-- The value of a digit of any script or of a letter that serves as one. -/
def digitValue? (base : Nat) (c : Char) : Option Nat :=
  let value := match decimalValue? c with
    | some v => some v
    | none =>
      if 'a' ≤ c ∧ c ≤ 'z' then some (c.toNat - 0x57)
      else if 'A' ≤ c ∧ c ≤ 'Z' then some (c.toNat - 0x37)
      else none
  value.filter (· < base)

/-- Reads digits with single underscores between them. `value` is what has been read, and
`afterDigit` says whether a digit stands right before. -/
def digitsFrom? (base : Nat) : (value : Nat) → (afterDigit : Bool) → List Char → Option Nat
  | value, afterDigit, [] => if afterDigit then some value else none
  | value, afterDigit, c :: rest =>
    if c = '_' then if afterDigit then digitsFrom? base value false rest else none
    else match digitValue? base c with
      | some d => digitsFrom? base (value * base + d) true rest
      | none => none

/-- The letter that marks a number of a base after a zero. -/
def baseLetter? (base : Nat) : Option Char :=
  match base with
  | 2 => some 'b'
  | 8 => some 'o'
  | 16 => some 'x'
  | _ => none

/-- Takes the mark of the base off the front, and an underscore after it. -/
def withoutBaseMark (base : Nat) (cs : List Char) : List Char :=
  match cs with
  | '0' :: letter :: rest =>
    if baseLetter? base = some letter.toLower then
      match rest with
      | '_' :: rest => rest
      | _ => rest
    else cs
  | _ => cs

/-- Takes a sign off the front. -/
def signed (cs : List Char) : Bool × List Char :=
  match cs with
  | '-' :: rest => (true, rest)
  | '+' :: rest => (false, rest)
  | _ => (false, cs)

/-- The integer that a text writes in a base. -/
def integer? (base : Nat) (cs : List Char) : Option Int :=
  let (negative, body) := signed (withoutBlanks cs)
  (digitsFrom? base 0 false (withoutBaseMark base body)).map fun n =>
    if negative then -n else n

/-- The digits at the front of a list, with single underscores between them: their values,
and the rest. -/
def digitRun : (afterDigit : Bool) → List Char → List Nat × List Char
  | _, [] => ([], [])
  | afterDigit, c :: rest =>
    match digitValue? 10 c with
    | some d => let (ds, rest) := digitRun true rest; (d :: ds, rest)
    | none =>
      match c = '_' && afterDigit, rest with
      | true, next :: _ =>
        if (digitValue? 10 next).isSome then digitRun false rest else ([], c :: rest)
      | _, _ => ([], c :: rest)

/-- The number that a list of decimal digits writes. -/
def ofDigits (ds : List Nat) : Nat :=
  ds.foldl (fun n d => 10 * n + d) 0

/-- The exponent that ends a number: nothing, or the letter, a sign and digits. -/
def exponent? (cs : List Char) : Option Int :=
  match cs with
  | [] => some 0
  | letter :: rest =>
    if letter = 'e' ∨ letter = 'E' then
      let (negative, body) := signed rest
      match digitRun false body with
      | ([], _) => none
      | (ds, []) => some (if negative then -(ofDigits ds : Int) else ofDigits ds)
      | _ => none
    else none

/-- The number that digits with a point and an exponent write. -/
def decimal? (cs : List Char) : Option Decimal :=
  let (whole, rest) := digitRun false cs
  let (places, rest) := match rest with
    | '.' :: rest => digitRun false rest
    | _ => ([], rest)
  if whole = [] ∧ places = [] then none
  else (exponent? rest).map fun e => ⟨ofDigits (whole ++ places), e - places.length⟩

/-- The double that a text writes. -/
def double? (cs : List Char) : Option Double :=
  let (negative, body) := signed (withoutBlanks cs)
  let word := String.ofList (body.map Char.toLower)
  if word = "inf" ∨ word = "infinity" then some (.ofSign negative Double.infinityBits)
  else if word = "nan" then some (.notNumber 0)
  else (decimal? body).map (Double.ofSignedDecimal negative)

end NestedTables.Text
