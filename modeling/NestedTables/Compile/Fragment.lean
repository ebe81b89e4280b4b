import NestedTables.Document.Value

/-!
# Schemas under construction

What is emitted for a node is a document, but a part of it may not be known yet. A table that
is reached through the items of an array, and whose relation belongs to no table, stays where
it is, inside the schema around it; and it stays in step with its own descriptor, which may
still gain columns. A `Fragment` therefore refers to such a table by its place among the
registered tables, and `Fragment.resolve` puts in the schemas that the tables have by then.

A table refers only to tables that were registered before it, so resolving all schemas in the
order of registration is a single pass.
-/

namespace NestedTables

/-- A document some parts of which are schemas of registered tables. -/
inductive Fragment
  /-- A part of the source, as it is. -/
  | verbatim (v : Value)
  | map (entries : List (Scalar × Fragment))
  /-- The schema of a registered table. -/
  | table (place : Nat)

namespace Fragment

mutual

/-- The document, given the schemas of the registered tables. -/
def resolve (tables : List Fields) : Fragment → Value
  | .verbatim v => v
  | .map es => .map (resolveEntries tables es)
  | .table place => .map (tables.getD place [])

def resolveEntries (tables : List Fields) : List (Scalar × Fragment) → Fields
  | [] => []
  | (k, f) :: es => (k, resolve tables f) :: resolveEntries tables es

end

/-- The schemas of all tables, in the order of registration. -/
def resolveAll (schemas : List (Entries Scalar Fragment)) : List Fields :=
  schemas.foldl (fun tables schema => tables ++ [resolveEntries tables schema]) []

/-- The entries of a fragment that is a mapping of fragments. -/
def entries? : Fragment → Option (Entries Scalar Fragment)
  | .map es => some es
  | _ => none

end Fragment

end NestedTables
