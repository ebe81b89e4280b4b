import NestedTables.Relational.Descriptor

/-!
# The foreign keys of a relational model

Every relation says which column refers to which. A relation to one makes its own column
refer to the target; a relation to many makes the column of the target refer to its own; a
relation through a join table makes two columns of the join table refer to the two ends. A
kind of relation that is neither, and a reference that is not `table.column`, make nothing.

`ForeignKeys.ofModel` collects what all relations say. Of two targets for one column the
later one counts.
-/

namespace NestedTables

/-- The columns that refer to others, table by table, with what they refer to. -/
abbrev ForeignKeys := Entries String (Entries String String)

namespace ForeignKeys

/-- The columns of a table that refer to others. -/
def ofTable (keys : ForeignKeys) (table : String) : Entries String String :=
  (keys.get? table).getD []

/-- Makes the column `source` refer to `target`, if both are references. -/
def add (keys : ForeignKeys) (source target : String) : ForeignKeys :=
  match ColumnRef.ofText? source, ColumnRef.ofText? target with
  | some r, some _ => keys.put r.table ((keys.ofTable r.table).put r.column target)
  | _, _ => keys

/-- What a relation says: pairs of a column and the one it refers to. -/
def saidBy {η : Type} (belongsToOne hasMany : Value) (r : Relation η) : List (String × String) :=
  let own := r.joinFrom.getD ""
  match r.through with
  | some t => [(t.source, own), (t.target, r.joinTo)]
  | none =>
    if r.kind.same belongsToOne then [(own, r.joinTo)]
    else if r.kind.same hasMany then [(r.joinTo, own)]
    else []

/-- The foreign keys that the relations of some tables ask for. -/
def ofModel {η : Type} (belongsToOne hasMany : Value) (tables : List (Descriptor η)) :
    ForeignKeys :=
  let said := tables.flatMap fun d => d.relations.flatMap fun e => saidBy belongsToOne hasMany e.2
  said.foldl (fun keys p => keys.add p.1 p.2) []

end ForeignKeys

end NestedTables
