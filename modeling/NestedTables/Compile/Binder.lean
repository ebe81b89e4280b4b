import NestedTables.Override.Finding
import NestedTables.Relational.Descriptor

/-!
# Binders

A compilation hands every table to a *binder*, which gives out a handle for it or refuses.
A binder also says which properties are never emitted and what the two kinds of relations
are called. What it answers may depend on the tables it was handed before.

Nothing else is known of a binder, so `Failure` keeps the binder's own reasons apart from
those of the compilation.
-/

namespace NestedTables

/-- What the compilation needs of the receiver of its tables. Handles are of type `η`, reasons
for refusing a table of type `ε`. -/
structure Binder (η ε : Type) where
  /-- The names of properties that no table has. -/
  virtual : List String := []
  /-- The kind of a relation to one table. -/
  belongsToOne : Value := .text "BelongsToOneRelation"
  /-- The kind of a relation to many rows of a table. -/
  hasMany : Value := .text "HasManyRelation"
  /-- The handle of a table, after those that were handed over in the same run. -/
  create : List (Descriptor η) → Descriptor η → Except ε η

/-- The binder whose handle for a table is its place among all tables it was handed, of which
there were `earlier` in runs before. -/
def Binder.counting {ε : Type} (earlier : Nat := 0) : Binder Nat ε where
  create before _ := .ok (earlier + before.length)

/-- Why a compilation ends without a result. -/
inductive Failure (ε : Type)
  | schema (e : SchemaError)
  /-- A table that cannot be described. -/
  | record (problems : List Problem)
  /-- A node has a key that is no text, so that it cannot be told whether it is an override. -/
  | keyNotText (key : Scalar)
  | binder (reason : ε)

end NestedTables
