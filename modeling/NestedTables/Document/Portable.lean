import NestedTables.Document.Display
import NestedTables.Text.Utf8

/-!
# Portable documents

A document that came from YAML may hold what JSON has no form for. `Value.portable` is the
nearest document of texts, numbers, truth values, null, lists, and mappings from texts. Dates
and moments become texts in the standard notation, sets and pairs become lists, bytes become
the text that they encode, and a number that is not finite becomes null. A key becomes a text,
and of two keys that become the same text the later value counts, in the first place.

Two things have no portable form: bytes that are no UTF-8, and a key that is an integer too
long to be written. The first of them in written order is told.
-/

namespace NestedTables

/-- Why a document has no portable form. -/
inductive Unportable
  /-- Bytes that encode no text. -/
  | notText
  /-- A key that is too long to be written. -/
  | keyTooLong
deriving DecidableEq, Repr

/-- The text that bytes encode. -/
def encodedText (bs : List UInt8) : Except Unportable String :=
  match Text.Utf8.decode bs with
  | .ok s => .ok s
  | .error _ => .error .notText

/-- The text that a key of a mapping becomes. -/
def Scalar.portableKey (k : Scalar) : Except Unportable String :=
  match k with
  | .bool b => .ok (if b then "true" else "false")
  | .real x => .ok (if x.isFinite then k.plain else Scalar.null.plain)
  | .moment t => .ok (String.ofList t.zulu)
  | .bytes bs => encodedText bs
  | k => if k.isWritable then .ok k.plain else .error .keyTooLong

/-- The portable form of a scalar. -/
def Scalar.portable : Scalar → Except Unportable Scalar
  | .real x => .ok (if x.isFinite then .real x else .null)
  | .date d => .ok (.text (String.ofList d.iso))
  | .moment t => .ok (.text (String.ofList t.zulu))
  | .bytes bs => (encodedText bs).map .text
  | s => .ok s

namespace Value

mutual

/-- The portable form of a document. -/
def portable : Value → Except Unportable Value
  | .scalar s => s.portable.map .scalar
  | .list vs => (portableItems vs).map .list
  | .map es => (portableEntries es).map fun es => .map (Entries.ofPairs es)
  | .set ms => (ms.mapM Scalar.portable).map fun ms => .list (ms.map .scalar)
  | .pair a b => do return .list [← portable a, ← portable b]

def portableItems : List Value → Except Unportable (List Value)
  | [] => .ok []
  | v :: vs => do return (← portable v) :: (← portableItems vs)

def portableEntries : List (Scalar × Value) → Except Unportable (List (Scalar × Value))
  | [] => .ok []
  | (k, v) :: es => do
    let key ← k.portableKey
    return (.text key, ← portable v) :: (← portableEntries es)

end

end Value

end NestedTables
