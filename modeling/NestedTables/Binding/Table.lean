import NestedTables.Binding.Column
import NestedTables.Binding.ForeignKeys

/-!
# From descriptors to tables

A table is the list of its columns: the identity column, then the column of every property,
then the foreign keys that are no properties. A property that is no mapping counts as one
without entries. A column may be null unless its name is required.

`Catalog.build` adds tables at the end of a catalogue and never touches those that are there.
If a table cannot be built, those before it stay.
-/

namespace NestedTables

/-- Why a table cannot be built. -/
inductive BuildFault
  /-- What is required is not a collection of names. -/
  | requiredNoNames
  /-- The properties are no mapping. -/
  | propertiesNoMapping
  | column (fault : ColumnFault)
  /-- The name of a column is empty. -/
  | columnUnnamed
deriving DecidableEq, Repr

namespace Descriptor

variable {η : Type}

/-- The names of the columns that may not be null; nothing if what the schema requires cannot
be a set. -/
def required? (d : Descriptor η) : Option (List String) :=
  let v := d.schema.value "required"
  if !v.truthy then some []
  else match v.members? with
    | some members =>
      if members.all Value.canBeKey then some (members.filterMap Value.text?) else none
    | none => none

/-- The columns of properties. -/
def declaredColumns (d : Descriptor η) (required : List String) (keys : Entries String String) :
    Fields → Except ColumnFault (List Column)
  | [] => .ok []
  | (name, property) :: rest =>
    let name := name.plain
    if name = d.idColumn then declaredColumns d required keys rest
    else
      let fields := property.fields?.getD []
      match Column.ofProperty name fields (!required.contains name) (keys.get? name) with
      | .error e => .error e
      | .ok column => (declaredColumns d required keys rest).map (column :: ·)

/-- The foreign keys that are neither properties nor the identity column. -/
def addedColumns (d : Descriptor η) (keys : Entries String String) : List Column :=
  (keys.filter fun e => !d.columns.has (.text e.1) && e.1 ≠ d.idColumn).map fun e =>
    .reference e.1 e.2

/-- The columns of the table that a descriptor describes. -/
def build (d : Descriptor η) (keys : Entries String String) : Except BuildFault (List Column) :=
  match d.required?, d.properties.fields? with
  | none, _ => .error .requiredNoNames
  | some _, none => .error .propertiesNoMapping
  | some required, some properties =>
    match d.declaredColumns required keys properties with
    | .error e => .error (.column e)
    | .ok declared =>
      let columns := .identity d.idColumn :: declared ++ d.addedColumns keys
      if columns.any fun c => c.name = "" then .error .columnUnnamed else .ok columns

end Descriptor

/-- The tables of a database, in the order of their creation. -/
abbrev Catalog := Entries String (List Column)

namespace Catalog

variable {η : Type}

/-- The catalogue with the tables that it does not have yet, up to the first that cannot be
built. -/
def build (keys : ForeignKeys) :
    Entries String (Descriptor η) → Catalog → Catalog × Except BuildFault Unit
  | [], catalog => (catalog, .ok ())
  | (table, d) :: rest, catalog =>
    if catalog.has table then build keys rest catalog
    else match d.build (keys.ofTable table) with
      | .error e => (catalog, .error e)
      | .ok columns => build keys rest (catalog ++ [(table, columns)])

/-- A table that is there stays as it is. -/
theorem get?_build (keys : ForeignKeys) (tables : Entries String (Descriptor η))
    (catalog : Catalog) (table : String) (columns : List Column)
    (h : catalog.get? table = some columns) :
    (build keys tables catalog).1.get? table = some columns := by
  induction tables generalizing catalog with
  | nil => exact h
  | cons e rest ih =>
    obtain ⟨t, d⟩ := e
    rw [build]
    split
    · exact ih _ h
    · split
      · exact h
      · exact ih _ (by rw [Entries.get?_append, h]; rfl)

end Catalog

end NestedTables
