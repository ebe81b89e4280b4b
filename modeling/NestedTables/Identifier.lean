import NestedTables.Text.Hex
import NestedTables.Text.Number

/-!
# Universally unique identifiers

An identifier of a hundred and twenty-eight bits. It is written as thirty-two hexadecimal
digits in five groups. Reading is lenient: the words `urn:` and `uuid:` are taken out
wherever they stand, then braces at both ends, then all hyphens; what is left must have
thirty-two characters and be a number in base sixteen, by the lenient rules of
`NestedTables.Text.integer?`.
-/

namespace NestedTables

/-- An identifier is its value. -/
structure Identifier where
  value : Fin (Nat.pow 2 128)
deriving DecidableEq, Repr

namespace Identifier

/-- `cs` without any occurrence of `word`, taken out from left to right; `fuel` bounds the
characters that are looked at. -/
def without (word : List Char) : Nat → List Char → List Char
  | 0, cs => cs
  | _ + 1, [] => []
  | fuel + 1, c :: rest =>
    if word.isPrefixOf (c :: rest) then without word fuel ((c :: rest).drop word.length)
    else c :: without word fuel rest

def isBrace (c : Char) : Bool :=
  c.toNat = 0x7b || c.toNat = 0x7d

/-- The characters of a text that are meant to be digits. -/
def digitPart (cs : List Char) : List Char :=
  let bare := without "uuid:".toList cs.length (without "urn:".toList cs.length cs)
  let unbraced := ((bare.dropWhile isBrace).reverse.dropWhile isBrace).reverse
  unbraced.filter (· ≠ '-')

def ofText? (s : String) : Option Identifier :=
  let digits := digitPart s.toList
  if digits.length = 32 then
    match Text.integer? 16 digits with
    | some n =>
      if h : 0 ≤ n ∧ n < (Nat.pow 2 128 : Nat) then some ⟨⟨n.toNat, (Int.toNat_lt h.1).mpr h.2⟩⟩
      else none
    | none => none
  else none

/-- The identifier in five groups of digits. -/
def canonical (u : Identifier) : String :=
  let ds := Text.hexDigits 32 u.value
  String.ofList <|
    ds.take 8 ++ '-' :: (ds.drop 8).take 4 ++ '-' :: (ds.drop 12).take 4 ++
      '-' :: (ds.drop 16).take 4 ++ '-' :: ds.drop 20

end Identifier

end NestedTables
