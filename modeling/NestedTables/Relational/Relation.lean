import NestedTables.Record.Reading
import NestedTables.Schema.ColumnRef

/-!
# Relations between tables

A `Relation` is an edge of the relational model: it belongs to a table, leads to another
one, and says which columns meet. A relation to one table joins a foreign key of its own
table with the identity of the target; a relation to many joins its own identity with a
foreign key of the target, or goes through a third table.

The kind of a relation is a token of the binder's choosing and may be any value. A relation
also holds the handle that the binder gave out for its target; the handle is not part of
what is written.
-/

namespace NestedTables

/-- A join table: its column that refers to the owner, its column that refers to the target,
and other columns of it that the relation shows. -/
structure Through where
  source : String
  target : String
  extra : List String := []
deriving DecidableEq, Repr

namespace Through

/-- The name of the join table. -/
def table (t : Through) : String :=
  ColumnRef.tablePart t.source

/-- The names of the fields; the first field has a second name. -/
def fieldNames : List (List String) :=
  [["from", "from_"], ["to"], ["extra"]]

/-- The least number of characters of a reference: two parts and a dot. -/
def leastReference : Nat := 3

def ofFields (es : Fields) : Reading Through :=
  ((Reading.required ["from", "from_"] (Reading.text leastReference) es).both <|
    (Reading.required ["to"] (Reading.text leastReference) es).both
      (Reading.optional ["extra"] [] Reading.texts es)).checked
        (Reading.nothingElse fieldNames es)
  |>.map fun (source, target, extra) => ⟨source, target, extra⟩

def ofValue : Value → Reading Through :=
  Reading.record "JoinThrough" ofFields

/-- The join table as a document. -/
def dump (t : Through) : Value :=
  .object [("from", .text t.source), ("to", .text t.target), ("extra", .list (t.extra.map .text))]

/-- Gives a field a new value. -/
def set (t : Through) (name : String) (v : Value) : Reading Through :=
  Reading.under (.text name) <| match name with
    | "from_" => (Reading.text leastReference v).map fun s => { t with source := s }
    | "to" => (Reading.text leastReference v).map fun s => { t with target := s }
    | "extra" => (Reading.texts v).map fun ss => { t with extra := ss }
    | _ => Reading.notField ["table"] name

end Through

/-- An edge of the relational model. `η` is the type of the handles of tables. -/
structure Relation (η : Type) where
  kind : Value
  targetTable : String
  /-- The handle of the target, if it has one. -/
  target : Option η := none
  joinFrom : Option String := none
  joinTo : String
  through : Option Through := none
deriving Repr

namespace Relation

variable {η : Type}

/-- The relation without the handle of its target. -/
def withoutTarget {θ : Type} (r : Relation η) : Relation θ :=
  { r with target := none }

def fieldNames : List (List String) :=
  [["kind"], ["target_table"], ["target_model"], ["join_from"], ["join_to"], ["join_through"]]

/-- A join table or null. -/
def throughOrNull (v : Value) : Reading (Option Through) :=
  match v with
  | .null => .ok none
  | v => (Through.ofValue v).map some

/-- A handle or null. -/
def handleOrNull (v : Value) : Reading (Option Value) :=
  match v with
  | .null => .ok none
  | v => .ok (some v)

/-- Reads a relation whose handles are documents. -/
def ofFields (es : Fields) : Reading (Relation Value) :=
  ((Reading.required ["kind"] Reading.anything es).both <|
    (Reading.required ["target_table"] (Reading.text 1) es).both <|
    (Reading.optional ["target_model"] none handleOrNull es).both <|
    (Reading.optional ["join_from"] none Reading.textOrNull es).both <|
    (Reading.required ["join_to"] (Reading.text 1) es).both
      (Reading.optional ["join_through"] none throughOrNull es)).checked
        (Reading.nothingElse fieldNames es)
  |>.map fun (kind, targetTable, target, joinFrom, joinTo, through) =>
    ⟨kind, targetTable, target, joinFrom, joinTo, through⟩

def ofValue : Value → Reading (Relation Value) :=
  Reading.record "RelationMapping" ofFields

/-- The relation as a document. -/
def dump (r : Relation η) : Value :=
  .object [("kind", r.kind), ("target_table", .text r.targetTable),
    ("join_from", .ofText? r.joinFrom), ("join_to", .text r.joinTo),
    ("join_through", (r.through.map Through.dump).getD .null)]

/-- Gives a field a new value. -/
def set (r : Relation Value) (name : String) (v : Value) : Reading (Relation Value) :=
  Reading.under (.text name) <| match name with
    | "kind" => .ok { r with kind := v }
    | "target_table" => (Reading.text 1 v).map fun s => { r with targetTable := s }
    | "target_model" => (handleOrNull v).map fun h => { r with target := h }
    | "join_from" => (Reading.textOrNull v).map fun s => { r with joinFrom := s }
    | "join_to" => (Reading.text 1 v).map fun s => { r with joinTo := s }
    | "join_through" => (throughOrNull v).map fun t => { r with through := t }
    | _ => Reading.notField [] name

/-- The relation in one line. -/
def shown (r : Relation η) : String :=
  let via := match r.through with
    | some t => s!" via {t.table}"
    | none => ""
  s!"<Relation {r.kind.plain} {(Value.ofText? r.joinFrom).plain} → {r.joinTo}{via}>"

end Relation

end NestedTables
