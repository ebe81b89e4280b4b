import NestedTables.Binding.Table
import NestedTables.Compile

/-!
# Binding a relational model to a database

A `Binding` receives the tables of one compilation or more and keeps, for every name, the
last descriptor in the place of the first. It also has the catalogue of the database. Tables
are built late, since a relation to many may still add a column to a table that has been
received.

Looking up a table that is not in the catalogue first builds what can be built, so a look-up
may change the catalogue even if it fails; `Lookup` is the type of such steps.
-/

namespace NestedTables

/-- A database and the tables it has received. -/
structure Binding where
  belongsToOne : Value := .text "BelongsToOneRelation"
  hasMany : Value := .text "HasManyRelation"
  /-- The last descriptor received for every table. -/
  received : Entries String (Descriptor Nat) := []
  catalog : Catalog := []

/-- Why something cannot be looked up. -/
inductive LookupFault
  | build (fault : BuildFault)
  | noTable (table : String)
  | noColumn (column : String)
  /-- A text that refers to no column. -/
  | noReference (text : String)
  | noRelation (table relation : String)
  /-- A relation that does not say which column of its own table it joins. -/
  | noOwnColumn
deriving DecidableEq, Repr

/-- What is said of a relation that a table does not have. -/
def LookupFault.noSuchRelation (table relation : String) : String :=
  s!"Table '{table}' has no relation '{relation}'."

/-- A look-up in a binding. -/
abbrev Lookup := ExceptT LookupFault (StateM Binding)

namespace Binding

/-- Keeps a table. -/
def receive (b : Binding) (d : Descriptor Nat) : Binding :=
  { b with received := b.received.put d.tableName d }

def receiveAll (b : Binding) (ds : List (Descriptor Nat)) : Binding :=
  ds.foldl receive b

def foreignKeys (b : Binding) : ForeignKeys :=
  .ofModel b.belongsToOne b.hasMany (b.received.map (·.2))

/-- Builds every received table that is not in the catalogue. -/
def build (b : Binding) : Binding × Except BuildFault Unit :=
  let (catalog, result) := b.catalog.build b.foreignKeys b.received
  ({ b with catalog }, result)

/-- Compiles a schema into a binding. The tables that were received before a failure stay.
The result names the tables that the models are. -/
def compile {ε : Type} (b : Binding) (virtual : List String)
    (create : List (Descriptor Nat) → Descriptor Nat → Except ε Nat) (settings : Settings)
    (schema : Value) : Binding × Except (Failure ε) (Entries String (Descriptor Nat)) :=
  let outcome := NestedTables.compile ⟨virtual, b.belongsToOne, b.hasMany, create⟩ settings schema
  (b.receiveAll outcome.tables, outcome.result.map fun models =>
    models.filterMap fun m => outcome.tables[m.2]?.map (m.1, ·))

end Binding

namespace Lookup

/-- A result, or a reason to stop. -/
def orFault {α : Type} (fault : LookupFault) : Option α → Lookup α
  | some a => pure a
  | none => throw fault

/-- Builds what can be built. -/
def build : Lookup Unit := do
  let (b, result) := (← get).build
  set b
  match result with
  | .ok () => pure ()
  | .error e => throw (.build e)

/-- The columns of a table. -/
def table (name : String) : Lookup (List Column) := do
  unless (← get).catalog.has name do build
  orFault (.noTable name) ((← get).catalog.get? name)

/-- The column that a text refers to, with the name of its table. -/
def column (text : String) : Lookup (String × Column) := do
  let ref ← orFault (.noReference text) (ColumnRef.ofText? text)
  let columns ← table ref.table
  let found ← orFault (.noColumn ref.column) (columns.find? fun c => c.name = ref.column)
  return (ref.table, found)

/-- The reference to the column that a text refers to. -/
def columnRef (text : String) : Lookup ColumnRef := do
  let (table, found) ← column text
  return ⟨table, found.name⟩

end Lookup

/-- The condition of a join. -/
inductive JoinCondition
  | equal (left right : ColumnRef)
  | both (first second : JoinCondition)
deriving DecidableEq, Repr

namespace Descriptor

variable {η : Type}

/-- The model of a table in one line. -/
def modelShown (d : Descriptor η) : String :=
  s!"<TableModel {d.modelName} → {d.tableName}>"

/-- The condition that joins a table with the target of one of its relations. -/
def joinCondition (d : Descriptor η) (relation : String) : Lookup JoinCondition := do
  let r ← Lookup.orFault (.noRelation d.tableName relation) (d.relations.get? relation)
  let own ← Lookup.orFault .noOwnColumn r.joinFrom
  let own ← Lookup.columnRef own
  match r.through with
  | none => return .equal own (← Lookup.columnRef r.joinTo)
  | some t =>
    let source ← Lookup.columnRef t.source
    let target ← Lookup.columnRef t.target
    return .both (.equal own source) (.equal target (← Lookup.columnRef r.joinTo))

end Descriptor

end NestedTables
