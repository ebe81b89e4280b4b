import NestedTables.Relational.Relation
import NestedTables.Schema.Context

/-!
# Table descriptors

A `Descriptor` is one table of the relational model: its names, its identity column, the
schema of its columns and its relations in order. The columns are the properties of the
schema. A schema without properties is given empty ones as soon as they are asked for
(`Descriptor.settled`), and every view of the columns is one of the settled descriptor.
-/

namespace NestedTables

/-- One table of the relational model. -/
structure Descriptor (η : Type) where
  modelName : String
  tableName : String
  idColumn : String := "id"
  schema : Fields := [(.text "properties", .map [])]
  relations : Entries String (Relation η) := []
deriving Repr

namespace Descriptor

variable {η : Type}

/-- The reference to the identity column. -/
def idPath (d : Descriptor η) : String :=
  (ColumnRef.mk d.tableName d.idColumn).written

/-- The descriptor with properties in its schema. -/
def settled (d : Descriptor η) : Descriptor η :=
  { d with schema := d.schema.putNew (.text "properties") (.map []) }

/-- The properties of the settled schema, which may be any value. -/
def properties (d : Descriptor η) : Value :=
  d.settled.schema.value "properties"

/-- The properties, as far as they are a mapping. -/
def columns (d : Descriptor η) : Fields :=
  d.properties.fields?.getD []

/-- What going through the properties yields, which is the names of the columns if they are a
mapping. -/
def columnNames? (d : Descriptor η) : Option (List Value) :=
  d.properties.members?

/-- The descriptor in one line; nothing if its properties cannot be counted. -/
def shown? (d : Descriptor η) : Option String :=
  d.columnNames?.map fun names =>
    s!"<Table {d.tableName} ({names.length} props, {d.relations.length} rels)>"

/-- The descriptor with relations that hold no handles, so that the handles may be of any
type. -/
def withoutTargets {θ : Type} (d : Descriptor η) : Descriptor θ :=
  { d with relations := d.relations.mapValues Relation.withoutTarget }

def fieldNames : List (List String) :=
  [["model_name"], ["table_name"], ["id_column"], ["schema", "json_schema"], ["relations"]]

/-- Reads a descriptor whose handles are documents. -/
def ofFields (es : Fields) : Reading (Descriptor Value) :=
  ((Reading.required ["model_name"] (Reading.text 1) es).both <|
    (Reading.required ["table_name"] (Reading.text 1) es).both <|
    (Reading.optional ["id_column"] "id" (Reading.text 1) es).both <|
    (Reading.optional ["schema", "json_schema"] [(.text "properties", .map [])] Reading.fields
      es).both
      (Reading.optional ["relations"] [] (Reading.mapping Relation.ofValue) es)).checked
        (Reading.nothingElse fieldNames es)
  |>.map fun (modelName, tableName, idColumn, schema, relations) =>
    ⟨modelName, tableName, idColumn, schema, relations⟩

def ofValue : Value → Reading (Descriptor Value) :=
  Reading.record "TableDescriptor" ofFields

/-- The descriptor as a document. -/
def dump (d : Descriptor η) : Value :=
  .object [("model_name", .text d.modelName), ("table_name", .text d.tableName),
    ("id_column", .text d.idColumn), ("schema", .map d.schema),
    ("relations", .object (d.relations.mapValues Relation.dump))]

/-- Gives a field a new value. -/
def set (d : Descriptor Value) (name : String) (v : Value) : Reading (Descriptor Value) :=
  Reading.under (.text name) <| match name with
    | "model_name" => (Reading.text 1 v).map fun s => { d with modelName := s }
    | "table_name" => (Reading.text 1 v).map fun s => { d with tableName := s }
    | "id_column" => (Reading.text 1 v).map fun s => { d with idColumn := s }
    | "json_schema" => (Reading.fields v).map fun es => { d with schema := es }
    | "relations" =>
      (Reading.mapping Relation.ofValue v).map fun rs => { d with relations := rs }
    | _ => Reading.notField ["properties", "id_path"] name

end Descriptor

end NestedTables
