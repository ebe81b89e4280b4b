import NestedTables.Schema.ColumnRef

/-!
# What a node knows of the table around it

Going down a schema, a node is told the table that it belongs to. A table opens a context of
its own. A node inside a table keeps the identity of the table and extends the path, which
starts with the name of the table and has a dot before each key on the way.
-/

namespace NestedTables

/-- The table around a node and the way down from it. -/
structure Context where
  tablePath : String
  idColumn : String
  idPath : String
deriving DecidableEq, Repr

namespace Context

/-- The context that a table opens. -/
def ofTable (table idColumn : String) : Context where
  tablePath := table
  idColumn := idColumn
  idPath := (ColumnRef.mk table idColumn).written

/-- The context one key further down. -/
def child (ctx : Context) (key : String) : Context :=
  { ctx with tablePath := ctx.tablePath ++ "." ++ key }

end Context

end NestedTables
