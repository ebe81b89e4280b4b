import NestedTables.Compile.Binder
import NestedTables.Compile.Fragment

/-!
# The state of a compilation

A `Registry` holds the tables that have been registered, each as a `Draft`; the foreign-key
columns that relations have asked for, table by table, in the order in which each was first
asked for; the handles by model name; and what has been logged.

A foreign-key column belongs to every table of a name, wherever it stands in the schema.
`Registry.request` adds it to the tables that are there already, and `Draft.withColumns`
gives it to one that is registered later. A column that a table has under the same name is
kept as it is.
-/

namespace NestedTables

/-- The key of the columns in the schema of a table. -/
def propertiesKey : Scalar := .text "properties"

/-- A table whose schema may still change. -/
structure Draft (η : Type) where
  modelName : String
  tableName : String
  idColumn : String
  schema : Entries Scalar Fragment
  relations : Entries String (Relation η)

namespace Draft

variable {η : Type}

/-- The columns of the table. -/
def columns (d : Draft η) : Entries Scalar Fragment :=
  ((d.schema.get? propertiesKey).bind Fragment.entries?).getD []

/-- The table with other columns. -/
def setColumns (d : Draft η) (columns : Entries Scalar Fragment) : Draft η :=
  { d with schema := d.schema.put propertiesKey (.map columns) }

/-- The table with one more column, unless it has one of that name. -/
def withColumn (column : String) (schema : Fields) (d : Draft η) : Draft η :=
  d.setColumns (d.columns.putNew (.text column) (.verbatim (.map schema)))

/-- The table with more columns, unless it has some of those names. -/
def withColumns (columns : List String) (schema : Fields) (d : Draft η) : Draft η :=
  columns.foldl (fun d column => d.withColumn column schema) d

/-- The descriptor of the table, given its resolved schema. -/
def describe (schema : Fields) (d : Draft η) : Descriptor η where
  modelName := d.modelName
  tableName := d.tableName
  idColumn := d.idColumn
  schema := schema
  relations := d.relations

end Draft

/-- The state of a compilation. -/
structure Registry (η : Type) where
  /-- The registered tables, in the order of registration. -/
  drafts : List (Draft η) := []
  /-- The foreign-key columns asked for, by table. -/
  requested : Entries String (List String) := []
  /-- The handles by model name. -/
  models : Entries String η := []
  log : List Event := []

namespace Registry

variable {η : Type}

/-- The foreign-key columns asked for of the tables of a name. -/
def columnsOf (r : Registry η) (table : String) : List String :=
  (r.requested.get? table).getD []

/-- The descriptors of the registered tables, as they are by now. -/
def descriptors (r : Registry η) : List (Descriptor η) :=
  List.zipWith Draft.describe (Fragment.resolveAll (r.drafts.map Draft.schema)) r.drafts

/-- The descriptor of a table that would be registered next. -/
def describe (r : Registry η) (d : Draft η) : Descriptor η :=
  d.describe (Fragment.resolveEntries (Fragment.resolveAll (r.drafts.map Draft.schema)) d.schema)

def note (r : Registry η) (e : Event) : Registry η :=
  { r with log := r.log ++ [e] }

def noteAll (r : Registry η) (es : List Event) : Registry η :=
  { r with log := r.log ++ es }

/-- Registers a table that has been given a handle; `relations` is the number of the relations
that were handed up to it. -/
def register (r : Registry η) (d : Draft η) (handle : η) (at_ : Pointer) (relations : Nat) :
    Registry η :=
  let again := if r.models.has d.modelName then [Event.registeredAgain d.modelName] else []
  { r with
    drafts := r.drafts ++ [d]
    models := r.models.put d.modelName handle
    log := r.log ++ again ++ [.registered d.tableName d.modelName at_ relations] }

/-- What is logged when a column is asked for: that it has been asked for before, and every
registered table of the name that has a column like it. -/
def requestEvents (r : Registry η) (table column : String) : List Event :=
  (if (r.columnsOf table).contains column then [.sharedColumn table column] else []) ++
    (r.drafts.filter fun d => d.tableName = table && d.columns.has (.text column)).map
      fun _ => .reusedColumn table column

/-- Asks for a foreign-key column of the tables of a name. -/
def request (r : Registry η) (table column : String) (schema : Fields) : Registry η :=
  let columns := r.columnsOf table
  { r with
    drafts := r.drafts.map fun d =>
      if d.tableName = table then d.withColumn column schema else d
    requested := r.requested.put table
      (if columns.contains column then columns else columns ++ [column])
    log := r.log ++ r.requestEvents table column }

end Registry

end NestedTables
