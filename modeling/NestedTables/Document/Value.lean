import NestedTables.Calendar.Timestamp
import NestedTables.Document.Entries

/-!
# Documents

A document is a tree of mappings and lists over scalars. What JSON can write is the common
part; a document may also hold dates, moments, bytes, sets and pairs, and any scalar may be
the key of a mapping.

Two questions about scalars have an answer of their own here. Scalars are *equal* as data
when they are written the same way, which Lean's `=` decides. They are *the same*, decided
by `Scalar.same`, when they compare equal as values: `1`, `1.0` and `true` are the same
number, and two moments are the same when they agree in universal time. Keys of one mapping
are never the same.
-/

namespace NestedTables

/-- A value without parts. -/
inductive Scalar
  | null
  | bool (b : Bool)
  | int (n : Int)
  | real (x : Double)
  | text (s : String)
  | date (d : Date)
  | moment (t : Timestamp)
  | bytes (bs : List UInt8)
deriving DecidableEq, Repr

/-- A document. -/
inductive Value
  | scalar (s : Scalar)
  | list (items : List Value)
  | map (entries : List (Scalar × Value))
  /-- A set of scalars, in the order in which they are gone through. -/
  | set (members : List Scalar)
  | pair (first second : Value)
deriving Repr

/-- The entries of a mapping. -/
abbrev Fields := Entries Scalar Value

namespace Scalar

/-- Whether a scalar counts as true: all do but null, false, zero and what is empty. -/
def truthy : Scalar → Bool
  | .null => false
  | .bool b => b
  | .int n => n ≠ 0
  | .real x => !x.isZero
  | .text s => s ≠ ""
  | .date _ | .moment _ => true
  | .bytes bs => bs ≠ []

/-- The integer that a scalar counts as; a truth value counts as zero or one. -/
def integer? : Scalar → Option Int
  | .int n => some n
  | .bool b => some (if b then 1 else 0)
  | _ => none

/-- Whether two scalars compare equal as values. -/
def same (a b : Scalar) : Bool :=
  match a, b with
  | .null, .null => true
  | .text s, .text t => s = t
  | .date d, .date e => d = e
  | .moment s, .moment t => s.same t
  | .bytes s, .bytes t => s = t
  | .real x, .real y => x.same y
  | .real x, b => match b.integer? with
    | some n => x.sameAsInt n
    | none => false
  | a, .real y => match a.integer? with
    | some n => y.sameAsInt n
    | none => false
  | a, b => match a.integer?, b.integer? with
    | some m, some n => m = n
    | _, _ => false

end Scalar

namespace Value

@[match_pattern] abbrev null : Value := .scalar .null
@[match_pattern] abbrev bool (b : Bool) : Value := .scalar (.bool b)
@[match_pattern] abbrev int (n : Int) : Value := .scalar (.int n)
@[match_pattern] abbrev real (x : Double) : Value := .scalar (.real x)
@[match_pattern] abbrev text (s : String) : Value := .scalar (.text s)

instance : Inhabited Value := ⟨null⟩

/-- A mapping with texts for keys. -/
def object (entries : List (String × Value)) : Value :=
  .map (entries.map fun e => (.text e.1, e.2))

/-- A text, or null. -/
def ofText? : Option String → Value
  | some s => text s
  | none => null

/-- Whether a value counts as true. -/
def truthy : Value → Bool
  | .scalar s => s.truthy
  | .list items => !items.isEmpty
  | .map entries => !entries.isEmpty
  | .set members => !members.isEmpty
  | .pair _ _ => true

/-- The text, if a value is one. -/
def text? : Value → Option String
  | .text s => some s
  | _ => none

/-- The entries, if a value is a mapping. -/
def fields? : Value → Option Fields
  | .map entries => some entries
  | _ => none

/-- What going through a value yields: the members of a list, a set or a pair, the keys of a
mapping, the characters of a text, the bytes of bytes. Other values have nothing to go
through. -/
def members? : Value → Option (List Value)
  | .list items => some items
  | .map entries => some (entries.map fun e => .scalar e.1)
  | .set members => some (members.map .scalar)
  | .pair a b => some [a, b]
  | .text s => some (s.toList.map fun c => .text (String.singleton c))
  | .scalar (.bytes bs) => some (bs.map fun b => .int b.toNat)
  | _ => none

mutual

/-- Whether two values compare equal. The order of a mapping does not count. -/
def same : Value → Value → Bool
  | .scalar a, .scalar b => a.same b
  | .list as, .list bs => sameList as bs
  | .map as, .map bs => as.length = bs.length && within as bs
  | .set as, .set bs => as.length = bs.length && as.all fun a => bs.any a.same
  | .pair a a', .pair b b' => same a b && same a' b'
  | _, _ => false

/-- Whether two lists compare equal, member by member. -/
def sameList : List Value → List Value → Bool
  | [], [] => true
  | a :: as, b :: bs => same a b && sameList as bs
  | _, _ => false

/-- Whether every entry has an equal one among `others`. -/
def within : List (Scalar × Value) → List (Scalar × Value) → Bool
  | [], _ => true
  | (k, v) :: rest, others =>
    (match others.find? fun e => k.same e.1 with
      | some e => same v e.2
      | none => false) && within rest others

end

end Value

namespace Fields

/-- The value of a textual key. -/
def value? (name : String) (fields : Fields) : Option Value :=
  fields.get? (.text name)

/-- The value of a textual key, or null. -/
def value (name : String) (fields : Fields) : Value :=
  (fields.value? name).getD .null

end Fields

end NestedTables
