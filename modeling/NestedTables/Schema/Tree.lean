import NestedTables.Schema.Node

/-!
# The tree of visited nodes

`Tree.ofFields` unfolds a node into the tree of the nodes that a walk from it visits: each
with its fields, and its children in the order of the walk. Everything that goes through a
schema is then a recursion over this tree, and `Tree.ofFields_eq` says that the tree is the
one meant: the children of a node are those of `Fields.children`.

`Tree.nodes` lists the visited nodes with their pointers, each before those below it.
-/

namespace NestedTables

/-- A node with the nodes below it. -/
inductive Tree
  | node (fields : Fields) (children : List (Step × Tree))

namespace Tree

def fields : Tree → Fields
  | .node fields _ => fields

def children : Tree → List (Step × Tree)
  | .node _ children => children

/-- A value as a node, if it is one, and its members that are nodes. -/
structure Unfolded where
  tree : Option Tree
  members : List (Scalar × Tree)

/-- The children of a node whose entries have been unfolded. -/
def childrenOf (parts : Entries Scalar Unfolded) : List (Step × Tree) :=
  (((parts.get? (.text "properties")).map Unfolded.members).getD []).map
      (fun e => (.property e.1, e.2)) ++
    (((parts.get? (.text "items")).bind Unfolded.tree).toList.map fun t => (.items, t))

/-- The entries that are nodes. -/
def nodesOf (parts : Entries Scalar Unfolded) : List (Scalar × Tree) :=
  parts.filterMap fun e => e.2.tree.map (e.1, ·)

mutual

def unfold : Value → Unfolded
  | .map es => ⟨some (.node es (childrenOf (unfoldEntries es))), nodesOf (unfoldEntries es)⟩
  | _ => ⟨none, []⟩

def unfoldEntries : List (Scalar × Value) → List (Scalar × Unfolded)
  | [] => []
  | (k, v) :: es => (k, unfold v) :: unfoldEntries es

end

/-- The tree of the nodes that a walk from a node visits. -/
def ofFields (node : Fields) : Tree :=
  .node node (childrenOf (unfoldEntries node))

theorem unfold_map (es : Fields) :
    unfold (.map es) = ⟨some (ofFields es), nodesOf (unfoldEntries es)⟩ := by
  rw [unfold, ofFields]

theorem tree_unfold (v : Value) : (unfold v).tree = v.fields?.map ofFields := by
  cases v <;> simp [unfold, Value.fields?, ofFields]

theorem get?_unfoldEntries (k : Scalar) (es : Fields) :
    Entries.get? k (unfoldEntries es) = (Entries.get? k es).map unfold := by
  induction es with
  | nil => simp [unfoldEntries]
  | cons e es ih =>
    obtain ⟨j, v⟩ := e
    by_cases h : j = k <;> simp [unfoldEntries, h, ih]

theorem nodesOf_unfoldEntries (es : Fields) :
    nodesOf (unfoldEntries es) = es.mappings.map fun e => (e.1, ofFields e.2) := by
  induction es with
  | nil => simp [unfoldEntries, nodesOf, Fields.mappings]
  | cons e es ih =>
    obtain ⟨j, v⟩ := e
    simp only [nodesOf, Fields.mappings] at ih
    cases h : v.fields? <;>
      simp [unfoldEntries, nodesOf, Fields.mappings, tree_unfold, h, ih]

theorem members_unfold (v : Value) :
    (unfold v).members = (v.fields?.getD []).mappings.map fun e => (e.1, ofFields e.2) := by
  cases v with
  | map es => simp [unfold_map, Value.fields?, nodesOf_unfoldEntries]
  | _ => simp [unfold, Value.fields?, Fields.mappings]

/-- **The tree of a node** has the node at its root, and below it the trees of its
children. -/
theorem ofFields_eq (node : Fields) :
    ofFields node = .node node (node.children.map fun c => (c.1, ofFields c.2)) := by
  have hp : ((Entries.get? (.text "properties") (unfoldEntries node)).map
        Unfolded.members).getD [] =
      ((node.mapping? "properties").getD []).mappings.map fun e => (e.1, ofFields e.2) := by
    rw [get?_unfoldEntries]
    cases h : Entries.get? (.text "properties") node with
    | none => simp [Fields.mapping?, Fields.value?, h, Fields.mappings]
    | some v => simp [Fields.mapping?, Fields.value?, h, members_unfold]
  have hi : (Entries.get? (.text "items") (unfoldEntries node)).bind Unfolded.tree =
      (node.mapping? "items").map ofFields := by
    rw [get?_unfoldEntries]
    cases h : Entries.get? (.text "items") node with
    | none => simp [Fields.mapping?, Fields.value?, h]
    | some v => simp [Fields.mapping?, Fields.value?, h, tree_unfold]
  rw [ofFields, childrenOf, hp, hi, Fields.children]
  cases h : node.mapping? "items" <;> simp

mutual

/-- The visited nodes with their pointers; `at_` is the pointer of the root. -/
def nodesFrom (at_ : Pointer) : Tree → List (Pointer × Fields)
  | .node fields children => (at_, fields) :: nodesBelow at_ children

def nodesBelow (at_ : Pointer) : List (Step × Tree) → List (Pointer × Fields)
  | [] => []
  | (step, tree) :: rest => nodesFrom (at_ ++ step.path) tree ++ nodesBelow at_ rest

end

/-- The visited nodes with their pointers, each before those below it. -/
def nodes (tree : Tree) : List (Pointer × Fields) :=
  nodesFrom [] tree

end Tree

/-- The nodes that a walk from a node visits. -/
def Fields.nodes (node : Fields) : List (Pointer × Fields) :=
  (Tree.ofFields node).nodes

/-- The text that a value is, if it is one, in a list. -/
def Value.texts : Value → List String
  | .text s => [s]
  | _ => []

/-- The names of the tables of a schema, without repetitions. -/
def Fields.tableNames (settings : Settings) (schema : Fields) : List String :=
  ((schema.nodes.filter (·.2.isTable)).flatMap fun n =>
    ((n.2.tableName? settings).map Value.texts).getD []).eraseDups

end NestedTables
