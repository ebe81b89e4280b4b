/-!
# Base64

Bytes written with sixty-four letters, four letters to three bytes. A last group of two
or three letters is filled up with padding, and the padding ends the text: what stands
after it is not read. Characters outside the alphabet are skipped, and so is padding
before a group has two letters. A text that ends inside a group is refused.
-/

namespace NestedTables.Text.Base64

/-- The six bits that a letter of the alphabet stands for. -/
def letterValue? (c : Char) : Option Nat :=
  if 'A' ≤ c ∧ c ≤ 'Z' then some (c.toNat - 0x41)
  else if 'a' ≤ c ∧ c ≤ 'z' then some (c.toNat - 0x61 + 26)
  else if '0' ≤ c ∧ c ≤ '9' then some (c.toNat - 0x30 + 52)
  else if c = '+' then some 62
  else if c = '/' then some 63
  else none

/-- The whole bytes in a group of up to four letters. -/
def groupBytes : List Nat → List UInt8
  | a :: b :: rest =>
    (a * 4 + b / 16).toUInt8 :: match rest with
      | c :: rest => (b % 16 * 16 + c / 4).toUInt8 :: match rest with
        | d :: _ => [(c % 4 * 64 + d).toUInt8]
        | [] => []
      | [] => []
  | _ => []

/-- Reads letters, of which the open group holds `group` and `pads` paddings so far. -/
def read? : List Char → (group : List Nat) → (pads : Nat) → Option (List UInt8)
  | [], group, _ => if group = [] then some [] else none
  | c :: rest, group, pads =>
    if c = '=' then
      if group.length < 2 then read? rest group pads
      else if group.length + pads + 1 ≥ 4 then some (groupBytes group)
      else read? rest group (pads + 1)
    else match letterValue? c with
      | none => read? rest group pads
      | some v =>
        if group.length = 3 then
          (read? rest [] 0).map (groupBytes (group ++ [v]) ++ ·)
        else read? rest (group ++ [v]) 0

/-- The bytes that a text writes. -/
def decode? (s : String) : Option (List UInt8) :=
  read? s.toList [] 0

example : decode? "TWE=" = some [77, 97] := by decide
example : decode? "TWE" = none := by decide

end NestedTables.Text.Base64
