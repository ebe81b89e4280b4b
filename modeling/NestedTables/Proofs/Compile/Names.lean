import NestedTables.Compile.Walk
import NestedTables.Proofs.Schema.Walked

/-!
# What a node says of itself

The walk reads the names of a table and the join of an array as records, and a reading can
fail. Here are the same names and the same join as plain functions of the node
(`Fields.names`, `Fields.join`), which is how statements about the walk speak of them.

A node is `Fields.Sound` when the readings succeed and give what the functions say.
`Override.sound_of_isValid` of `NestedTables.Proofs.Override.Accepted` is where it comes from:
the rules for overrides are strong enough that the walk never fails to read a name.
-/

namespace NestedTables

namespace Fields

/-- The names that a table node goes by. -/
def names (settings : Settings) (node : Fields) : Walk.Identity where
  modelName := ((node.modelName? settings).bind Value.text?).getD ""
  tableName := ((node.tableName? settings).bind Value.text?).getD ""
  idColumn := (node.idColumn settings).text?.getD ""

/-- The reference to the identity column of a table node. -/
def idPath (settings : Settings) (node : Fields) : String :=
  (ColumnRef.mk (node.names settings).tableName (node.names settings).idColumn).written

/-- How the rows of an array of tables find their owner, whose id path is `owner`: by the column
that the array names, else through the join table that it names, else by a column named after
the owner. -/
def join (settings : Settings) (owner : String) (array : Fields) : Walk.Join :=
  match (settings.override? .joinToColumn array).bind Value.text?,
      (settings.override? .joinThrough array).bind fun v => (Through.ofValue v).toOption with
  | some ref, _ => .column ref
  | none, some t => .through t
  | none, none => .foreignKey (ColumnRef.flatten owner)

/-- A node whose names and join the walk can read. -/
structure Sound (settings : Settings) (node : Fields) : Prop where
  identity : node.isTable = true → Walk.identity settings node = .ok (node.names settings)
  joinOf : ∀ ctx : Context, Walk.joinOf settings ctx node = .ok (node.join settings ctx.idPath)

end Fields

end NestedTables
