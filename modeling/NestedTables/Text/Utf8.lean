import NestedTables.Text.Hex

/-!
# Reading UTF-8

`NestedTables.Text.Utf8.decode` reads bytes as UTF-8 and names the first place where they
are not: the byte or bytes at fault, their position, and which of three things is wrong
with them. Overlong forms, surrogates and code points past `0x10ffff` are refused at the
earliest byte that shows them.
-/

namespace NestedTables.Text.Utf8

/-- What is wrong with a sequence of bytes. -/
inductive Fault
  /-- No character starts with this byte. -/
  | invalidStart
  /-- A byte that should continue a character does not. -/
  | invalidContinuation
  /-- The bytes end inside a character. -/
  | unexpectedEnd
deriving DecidableEq, Repr

def Fault.message : Fault → String
  | .invalidStart => "invalid start byte"
  | .invalidContinuation => "invalid continuation byte"
  | .unexpectedEnd => "unexpected end of data"

/-- The first fault of a sequence of bytes: the bytes it takes up and where they stand. -/
structure Failure where
  fault : Fault
  position : Nat
  first : UInt8
  count : Nat
deriving DecidableEq, Repr

def Failure.message (f : Failure) : String :=
  let place :=
    if f.count = 1 then
      s!"byte 0x{String.ofList (hexDigits 2 f.first.toNat)} in position {f.position}"
    else s!"bytes in position {f.position}-{f.position + f.count - 1}"
  s!"'utf-8' codec can't decode {place}: {f.fault.message}"

/-- The bytes that may stand second after a first byte of a sequence of three or four. -/
def secondRange (b : UInt8) : Nat × Nat :=
  if b = 0xe0 then (0xa0, 0xbf)
  else if b = 0xed then (0x80, 0x9f)
  else if b = 0xf0 then (0x90, 0xbf)
  else if b = 0xf4 then (0x80, 0x8f)
  else (0x80, 0xbf)

/-- How many bytes follow a first byte; nothing if no character starts with it. -/
def followers? (b : UInt8) : Option Nat :=
  let n := b.toNat
  if n < 0x80 then some 0
  else if n < 0xc2 then none
  else if n < 0xe0 then some 1
  else if n < 0xf0 then some 2
  else if n < 0xf5 then some 3
  else none

/-- The payload of a first byte with that many bytes after it. -/
def leadPayload (b : UInt8) (followers : Nat) : Nat :=
  if followers = 0 then b.toNat else b.toNat % Nat.pow 2 (6 - followers)

/-- Reads the `need` bytes that continue a character, of which `seen` bytes have been read.
The next one must lie in `range`; all after it may be any continuation byte. -/
def continuation (need seen : Nat) (range : Nat × Nat) (payload : Nat) :
    List UInt8 → Except (Fault × Nat) (Nat × List UInt8) :=
  match need with
  | 0 => fun rest => .ok (payload, rest)
  | need + 1 => fun
    | [] => .error (.unexpectedEnd, seen)
    | b :: rest =>
      if range.1 ≤ b.toNat ∧ b.toNat ≤ range.2 then
        continuation need (seen + 1) (0x80, 0xbf) (payload * 64 + b.toNat % 64) rest
      else .error (.invalidContinuation, seen)

/-- Reads one character off the front of the bytes. -/
def character (b : UInt8) (rest : List UInt8) : Except (Fault × Nat) (Char × List UInt8) :=
  match followers? b with
  | none => .error (.invalidStart, 1)
  | some n =>
    (continuation n 1 (secondRange b) (leadPayload b n) rest).map fun (c, rest) =>
      (Char.ofNat c, rest)

/-- Reads characters until the bytes end; `fuel` bounds their number. -/
def characters : Nat → Nat → List UInt8 → Except Failure (List Char)
  | 0, _, _ => .ok []
  | _ + 1, _, [] => .ok []
  | fuel + 1, position, b :: rest =>
    match character b rest with
    | .error (fault, count) => .error ⟨fault, position, b, count⟩
    | .ok (c, rest) =>
      (characters fuel (position + c.utf8Size) rest).map (c :: ·)

/-- The text that the bytes write in UTF-8. -/
def decode (bytes : List UInt8) : Except Failure String :=
  (characters bytes.length 0 bytes).map String.ofList

end NestedTables.Text.Utf8
