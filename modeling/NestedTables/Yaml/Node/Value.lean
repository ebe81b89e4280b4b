import NestedTables.Text.Base64
import NestedTables.Yaml.Node
import NestedTables.Yaml.Number

/-!
# The value of a node

`Node.value` turns a tree of tagged nodes into a document. The tag of a node decides how it is
read: the text of a scalar may be a number or a date, and a sequence of mappings may be a list
of pairs. Entries under the merge key of a mapping are put before its own, and of entries with
the same key the last value counts, in the first place.

If several nodes cannot be read, the fault that counts is one nearest to the root; among
faults of one depth it is the first. Scalars count as deep as the collection they are in.
-/

namespace NestedTables.Yaml

/-- What is built, or a fault and its depth. -/
abbrev Built (α : Type) := Except (Nat × Fault) α

namespace Built

variable {α β : Type}

/-- Two results; of two faults the one nearer to the root. -/
def both : Built α → Built β → Built (α × β)
  | .ok a, .ok b => .ok (a, b)
  | .error e, .ok _ => .error e
  | .ok _, .error e => .error e
  | .error e, .error f => .error (if f.1 < e.1 then f else e)

/-- The results of a list; of all faults the one nearest to the root. -/
def all : List (Built α) → Built (List α)
  | [] => .ok []
  | b :: bs => (b.both (all bs)).map fun (a, as) => a :: as

/-- A result with the depth of its fault. -/
def at_ (depth : Nat) : Except Fault α → Built α
  | .ok a => .ok a
  | .error f => .error (depth, f)

end Built

namespace Node

def tag : Node → Tag
  | .scalar t _ _ | .sequence t _ | .mapping t _ => t

/-- A mapping for a key is a text if it has the tag of the value key. -/
def asKey : Node → Node
  | .mapping .value es => .mapping .str es
  | n => n

mutual

/-- The node with texts for the scalars at some places that have the tag of the value key. -/
def withTexts (places : List Nat) : Node → Node
  | .scalar tag text place =>
    .scalar (if tag = .value && places.contains place then .str else tag) text place
  | .sequence t items => .sequence t (itemsWithTexts places items)
  | .mapping t es => .mapping t (entriesWithTexts places es)

def itemsWithTexts (places : List Nat) : List Node → List Node
  | [] => []
  | n :: ns => withTexts places n :: itemsWithTexts places ns

def entriesWithTexts (places : List Nat) : List (Node × Node) → List (Node × Node)
  | [] => []
  | (k, v) :: es => (withTexts places k, withTexts places v) :: entriesWithTexts places es

end

/-- The places of the keys with the tag of the value key. -/
def valueKeys (es : List (Node × Node)) : List Nat :=
  es.filterMap fun e => match e.1 with
    | .scalar .value _ place => some place
    | _ => none

/-- The entries of a mapping, with texts for its keys with the tag of the value key and for
their aliases inside it. -/
def withKeys (es : List (Node × Node)) : List (Node × Node) :=
  (entriesWithTexts (valueKeys es) es).map fun (k, v) => (k.asKey, v)

/-! ### Merging -/

mutual

/-- The entries that are merged into a mapping, and its own. -/
def mergedParts :
    List (Node × Node) → Except Fault (List (Node × Node) × List (Node × Node))
  | [] => .ok ([], [])
  | (k, v) :: rest =>
    if k.tag = .merge then
      match mergeSource v, mergedParts rest with
      | .ok source, .ok (merged, own) => .ok (source ++ merged, own)
      | .error e, _ | _, .error e => .error e
    else (mergedParts rest).map fun (merged, own) => (merged, (k, v) :: own)

/-- The entries that a node gives to a mapping: its own if it is a mapping, those of its
members, the last one first, if it is a sequence of mappings. -/
def mergeSource : Node → Except Fault (List (Node × Node))
  | .mapping _ es =>
    match mergedParts es with
    | .ok (merged, own) => .ok (merged ++ withKeys own)
    | .error e => .error e
  | .sequence _ items => mergeSources items
  | .scalar .. => .error .malformed

def mergeSources : List Node → Except Fault (List (Node × Node))
  | [] => .ok []
  | .mapping _ es :: rest =>
    match mergedParts es, mergeSources rest with
    | .ok (merged, own), .ok later => .ok (later ++ (merged ++ withKeys own))
    | .error e, _ | _, .error e => .error e
  | _ :: _ => .error .malformed

end

/-- The entries of a mapping: those that are merged into it, then its own. -/
def merged (es : List (Node × Node)) : Except Fault (List (Node × Node)) :=
  (mergedParts es).map fun (merged, own) => merged ++ withKeys own

/-! ### Scalars -/

mutual

/-- The text of a scalar and its place; for a mapping, those of its value key. -/
def scalarText? : Node → Option (String × Nat)
  | .scalar _ text place => some (text, place)
  | .mapping _ es => valueText? es
  | .sequence _ _ => none

def valueText? : List (Node × Node) → Option (String × Nat)
  | [] => none
  | (k, v) :: rest => if k.tag = .value then scalarText? v else valueText? rest

end

/-- The truth value of a word, in any case. -/
def truthValue (text : String) : Except Fault Scalar :=
  let word := String.ofList (Text.lowerCase text.toList)
  if ["yes", "true", "on"].contains word then .ok (.bool true)
  else if ["no", "false", "off"].contains word then .ok (.bool false)
  else .error (.noTruthValue word)

/-- The date or the moment of a node. -/
def timestamp (n : Node) : Except Fault Scalar :=
  match n with
  | .scalar _ text _ =>
    match Moment.ofText? (Tag.withoutLastBreak text.toList) with
    | none => .error .noTimestamp
    | some m =>
      match m.scalar with
      | .ok s => .ok s
      | .error f => .error (.calendar f)
  | _ => .error .timestampOfMapping

/-- The bytes that a text writes in base 64. -/
def bytes (text : String) : Except Fault Scalar :=
  if text.toList.all fun c => c.toNat < 0x80 then
    match Text.Base64.decode? text with
    | some bs => .ok (.bytes bs)
    | none => .error .malformed
  else .error .malformed

/-- The scalar that a node with the tag of a scalar is. -/
def scalarValue (n : Node) : Except Fault Scalar :=
  match n.scalarText? with
  | none => .error .malformed
  | some (text, place) =>
    match n.tag with
    | .null => .ok .null
    | .bool => truthValue text
    | .int => (Number.integer text).map .int
    | .float => (Number.double place text).map .real
    | .str => .ok (.text text)
    | .binary => bytes text
    | .timestamp => timestamp n
    | _ => .error .malformed

/-! ### Collections -/

/-- Gives a key a value, in the place of a key that is the same. -/
def putSame (k : Scalar) (v : Value) : Fields → Fields
  | [] => [(k, v)]
  | (k', v') :: es =>
    if k'.same k || k' = k then (k', v) :: es else (k', v') :: putSame k v es

/-- The mapping of some entries. -/
def distinct (es : List (Scalar × Value)) : Fields :=
  es.foldl (fun es e => putSame e.1 e.2 es) []

/-- The integer that a scalar is. -/
def integer? : Scalar → Option Int
  | .int n => some n
  | _ => none

/-- The members of a set in their order: integers in ascending order, and others in the order of
their first appearance. -/
def setMembers (ks : List Scalar) : List Scalar :=
  match ks.mapM integer? with
  | some ns => (ns.mergeSort fun m n => m ≤ n).map .int
  | none => ks

mutual

/-- The number of nodes above the deepest one, and one more. -/
def height : Node → Nat
  | .scalar .. => 1
  | .sequence _ items => heightOfItems items + 1
  | .mapping _ es => heightOfEntries es + 1

def heightOfItems : List Node → Nat
  | [] => 0
  | n :: ns => max (height n) (heightOfItems ns)

def heightOfEntries : List (Node × Node) → Nat
  | [] => 0
  | (k, v) :: es => max (max (height k) (height v)) (heightOfEntries es)

end

/-- The entries of a mapping; `value` is the value of a node inside it. -/
def entriesAt (value : Node → Built Value) (depth : Nat) : Node → Built Fields
  | .mapping _ es =>
    match merged es with
    | .error f => .error (depth, f)
    | .ok es =>
      (Built.all (es.map fun (k, v) =>
        (Built.at_ depth k.scalarValue).both (value v))).map distinct
  | _ => .error (depth, .malformed)

/-- The only entry of a mapping as a pair. -/
def pairAt (value : Node → Built Value) (depth : Nat) : Node → Built Value
  | .mapping _ [(k, v)] => ((value k).both (value v)).map fun (k, v) => .pair k v
  | _ => .error (depth, .malformed)

/-- The value of a node; `depth` is that of the collection it is in. The first argument is a
bound on the height. -/
def valueAt : Nat → (depth : Nat) → Node → Built Value
  | 0, depth, _ => .error (depth, .malformed)
  | bound + 1, depth, n =>
    let inner := valueAt bound (depth + 1)
    match n.tag with
    | .map => (entriesAt inner (depth + 1) n).map .map
    | .set => (entriesAt inner (depth + 1) n).map fun es => .set (setMembers es.keys)
    | .seq =>
      match n with
      | .sequence _ items => (Built.all (items.map inner)).map .list
      | _ => .error (depth + 1, .malformed)
    | .omap | .pairs =>
      match n with
      | .sequence _ items => (Built.all (items.map (pairAt inner (depth + 1)))).map .list
      | _ => .error (depth + 1, .malformed)
    | _ => (Built.at_ depth n.scalarValue).map .scalar

/-- The document that a node is. -/
def value (n : Node) : Except Fault Value :=
  match valueAt n.height 0 n with
  | .ok v => .ok v
  | .error (_, f) => .error f

end Node

end NestedTables.Yaml
