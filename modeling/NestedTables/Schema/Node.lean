import NestedTables.Schema.Pointer
import NestedTables.Schema.Settings

/-!
# Nodes of a schema

A node is a mapping of a schema document. This file says what kind of node it is, what it is
called, and which mappings below it are nodes as well.

A node is a **table** when it has an identity, which is a text that is not empty under
`$id`, and the semantics of an object: no declared type, the type `object`, or a mapping of
properties. Below a node a walk goes on to the values of `properties` that are mappings, in
written order, and then to `items` if that is a mapping. Tables under other keywords are not
visited; `Fields.unvisitedTables` finds those that lie right under one.
-/

namespace NestedTables

/-- The key of the identity of a table. -/
def identityKey : String := "$id"

/-- What a node stands for. -/
inductive NodeKind
  | table
  /-- An object that is stored inside the table around it. -/
  | embedded
  | arrayOfTable
  | arrayOfEmbedded
  | scalar
deriving DecidableEq, Repr

def NodeKind.name : NodeKind → String
  | .table => "table"
  | .embedded => "embedded"
  | .arrayOfTable => "array_of_table"
  | .arrayOfEmbedded => "array_of_embedded"
  | .scalar => "scalar"

namespace Fields

/-- Whether a key is there and has this text for a value. -/
def holds (node : Fields) (key text : String) : Bool :=
  match node.value? key with
  | some (.text s) => s = text
  | _ => false

/-- The entries of a key whose value is a mapping. -/
def mapping? (node : Fields) (key : String) : Option Fields :=
  (node.value? key).bind Value.fields?

def isTable (node : Fields) : Bool :=
  (match node.value? identityKey with
    | some (.text id) => id ≠ ""
    | _ => false) &&
  (!(node.value? "type").isSome || node.holds "type" "object" || (node.mapping? "properties").isSome)

def isArray (node : Fields) : Bool :=
  node.holds "type" "array" || (node.mapping? "items").isSome

end Fields

namespace Value

/-- Whether a value is a table node. -/
def isTable (v : Value) : Bool :=
  match v with
  | .map node => Fields.isTable node
  | _ => false

end Value

namespace Fields

/-- The kind of a node. -/
def kind (node : Fields) : NodeKind :=
  if node.isTable then .table
  else if node.isArray then
    if (node.value "items").isTable then .arrayOfTable else .arrayOfEmbedded
  else
    match node.value "type" with
    | .null => .embedded
    | .text "object" => .embedded
    | _ => if (node.mapping? "properties").isSome then .embedded else .scalar

/-- The first of the values that counts as true. -/
def firstTruthy : List (Option Value) → Option Value
  | [] => none
  | some v :: rest => if v.truthy then some v else firstTruthy rest
  | none :: rest => firstTruthy rest

/-- A name of a node: the override if it counts as true, else the title if that does, else
the identity, which may be missing. -/
def name? (settings : Settings) (o : Override) (node : Fields) : Option Value :=
  (firstTruthy [settings.override? o node, node.value? "title"]).or (node.value? identityKey)

/-- The name of the table of a node. -/
def tableName? (settings : Settings) (node : Fields) : Option Value :=
  node.name? settings .tableName

/-- The name under which the model of a node is known. -/
def modelName? (settings : Settings) (node : Fields) : Option Value :=
  node.name? settings .modelName

/-- The identity column of a node: the override if it counts as true, else the setting. -/
def idColumn (settings : Settings) (node : Fields) : Value :=
  (firstTruthy [settings.override? .idColumn node]).getD (.text settings.idColumn)

end Fields

/-- The kind of any value; what is no node is a scalar. -/
def Value.nodeKind : Value → NodeKind
  | .map node => Fields.kind node
  | _ => .scalar

/-- How a node is reached from the one above it. -/
inductive Step
  /-- As the value of a property. -/
  | property (name : Scalar)
  /-- As the schema of the items of an array. -/
  | items
deriving DecidableEq, Repr

namespace Step

/-- The keys that a step adds to a pointer. -/
def path : Step → Pointer
  | .property name => [.text "properties", name]
  | .items => [.text "items"]

/-- The key that a step adds to the path of a table. -/
def key : Step → Scalar
  | .property name => name
  | .items => .text "items"

/-- The keyword that a step goes through. -/
def keyword : Step → String
  | .property _ => "properties"
  | .items => "items"

end Step

namespace Fields

/-- The members of a mapping that are mappings themselves, in written order. -/
def mappings (es : Fields) : Entries Scalar Fields :=
  es.filterMap fun e => e.2.fields?.map (e.1, ·)

/-- The nodes right below a node. -/
def children (node : Fields) : List (Step × Fields) :=
  (((node.mapping? "properties").getD []).mappings.map fun e => (.property e.1, e.2)) ++
    ((node.mapping? "items").toList.map fun items => (.items, items))

/-- The keywords whose schemas a walk does not visit. -/
def unvisitedKeywords : List String :=
  ["allOf", "anyOf", "oneOf", "not", "additionalProperties", "patternProperties",
    "definitions", "$defs"]

/-- The tables among the values of a list, by their places; `place` is that of the first. -/
def tablesIn (keyword : String) : Nat → List Value → List Pointer
  | _, [] => []
  | place, v :: vs =>
    (if v.isTable then [[.text keyword, .text (toString place)]] else []) ++
      tablesIn keyword (place + 1) vs

/-- The pointers from a node to the tables that lie right under a keyword: as its value, in its
list or in its mapping. -/
def tablesUnder (node : Fields) (keyword : String) : List Pointer :=
  match node.value? keyword with
  | some (.list vs) => tablesIn keyword 0 vs
  | some (.map es) =>
    if Fields.isTable es then [[.text keyword]]
    else (Fields.mappings es).filterMap fun e =>
      if e.2.isTable then some [.text keyword, e.1] else none
  | _ => []

/-- The pointers to the tables that lie right under a keyword that is not visited. -/
def unvisitedTables (node : Fields) : List Pointer :=
  unvisitedKeywords.flatMap node.tablesUnder

end Fields

end NestedTables
