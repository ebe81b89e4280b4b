import NestedTables.Compile.Registry
import NestedTables.Schema.Tree

/-!
# The walk through a schema

The walk visits the nodes of a schema, and a node has been visited when all nodes below it
have. On the way down a node learns which table it belongs to (its `Context`). On the way up
it is rewritten from what its children became, and its relations are handed up until a table
takes them.

* A table that is a property of a node becomes a relation to one: in its place the node gets
  a foreign-key column, named after the property with `_id` behind it.
* An array of tables that is a property of a node becomes a relation to many: the property
  disappears, and the table of the items is asked for a foreign-key column, named after the
  identity of the table that owns the relation, unless the array overrides the join.
* Any other node keeps its place, without its override keys.

A table is registered when its own visit ends, so the target of a relation always has its
handle before the table that owns the relation is registered.
-/

namespace NestedTables

/-- What a relation to a table has to know of it. -/
structure Target (η : Type) where
  tableName : String
  idPath : String
  handle : η

/-- What the visit of a node hands to the node above it. -/
structure Visit (η : Type) where
  /-- What the node became. -/
  schema : Fragment
  /-- Relations that no table has taken yet. -/
  relations : Entries Scalar (Relation η) := []
  /-- The table that the node is, if it is one. -/
  table : Option (Target η) := none
  /-- Whether the node has become a relation and leaves its place. -/
  removed : Bool := false

/-- What stays the same during a walk. -/
structure Walk.Setting (η ε : Type) where
  settings : Settings
  binder : Binder η ε

/-- A step of the walk: it may fail, and what it did to the registry remains. -/
abbrev Walk (η ε : Type) := ExceptT (Failure ε) (StateM (Registry η))

namespace Walk

variable {η ε : Type}

/-- The names of a table. -/
structure Identity where
  modelName : String
  tableName : String
  idColumn : String
deriving DecidableEq, Repr

/-- Reads the names of a table node. -/
def identity (settings : Settings) (node : Fields) : Reading Identity :=
  ((Reading.under (.text "model_name")
      (Reading.text 1 ((node.modelName? settings).getD .null))).both <|
    (Reading.under (.text "table_name")
      (Reading.text 1 ((node.tableName? settings).getD .null))).both
      (Reading.under (.text "id_column") (Reading.text 1 (node.idColumn settings))))
  |>.map fun (modelName, tableName, idColumn) => ⟨modelName, tableName, idColumn⟩

/-- What is read, or the failure to describe a table. -/
def described {α : Type} (r : Reading α) : Walk η ε α :=
  match r with
  | .ok a => pure a
  | .error ps => throw (.record ps)

/-- Adds to the log. -/
def noteAll (es : List Event) : Walk η ε Unit :=
  modify (·.noteAll es)

/-- The context of a node that is reached by `step` from a node with the context `above`. A
table opens its own; the root belongs to no table. -/
def contextOf (settings : Settings) (above : Option Context) (step : Option Step)
    (node : Fields) : Reading (Option Context) :=
  if node.isTable then
    (identity settings node).map fun i => some (.ofTable i.tableName i.idColumn)
  else .ok <| match above, step with
    | some ctx, some step => some (ctx.child step.key.plain)
    | _, _ => none

/-- The first key of a node that is no text. -/
def badKey? (node : Fields) : Option Scalar :=
  node.keys.find? fun k => match k with
    | .text _ => false
    | _ => true

/-- The entries of a node that are no overrides, as they are. -/
def withoutOverrides (settings : Settings) (node : Fields) : Entries Scalar Fragment :=
  Entries.mapValues .verbatim <| node.filter fun e => match e.1 with
    | .text s => !settings.owns s
    | _ => true

/-- Whether a name is taken by a relation: the same value is the same name, however it is
written. -/
def taken (relations : Entries Scalar (Relation η)) (name : Scalar) : Bool :=
  relations.keys.any fun k => k = name || k.same name

/-- Adds a relation under a name that must be free. -/
def attach (relations : Entries Scalar (Relation η)) (name : Scalar) (relation : Relation η)
    (at_ : Pointer) : Except SchemaError (Entries Scalar (Relation η)) :=
  if taken relations name then .error (.collision name (.text at_.written))
  else .ok (relations ++ [(name, relation)])

/-- Adds the relations of a node below. -/
def merge (relations : Entries Scalar (Relation η)) (incoming : Entries Scalar (Relation η))
    (at_ : Pointer) : Except SchemaError (Entries Scalar (Relation η)) :=
  incoming.foldlM (fun relations e => attach relations e.1 e.2 at_) relations

/-- A result, or the failure of a schema. -/
def accepted {α : Type} (r : Except SchemaError α) : Walk η ε α :=
  match r with
  | .ok a => pure a
  | .error e => throw (.schema e)

/-! ### Tables as properties -/

/-- The column that takes the place of a table under a property. -/
def stub (name : Scalar) : String :=
  name.plain ++ "_id"

/-- The relation to a table under a property of a node with the context `ctx`. -/
def toOne (setting : Setting η ε) (ctx : Context) (name : Scalar) (target : Target η) :
    Relation η where
  kind := setting.binder.belongsToOne
  targetTable := target.tableName
  target := some target.handle
  joinFrom := some (ctx.tablePath ++ "." ++ stub name)
  joinTo := target.idPath

/-- What the properties of a node become, and the relations of the node with those to the
tables among them. -/
def rebuild (setting : Setting η ε) (ctx : Option Context) (at_ : Pointer)
    (results : Entries Step (Visit η)) :
    Fields → Entries Scalar Fragment → Entries Scalar (Relation η) →
      Except SchemaError (Entries Scalar Fragment × Entries Scalar (Relation η))
  | [], columns, relations => .ok (columns, relations)
  | (name, property) :: rest, columns, relations =>
    match results.get? (.property name) with
    | none => rebuild setting ctx at_ results rest (columns.put name (.verbatim property)) relations
    | some result =>
      if result.removed then rebuild setting ctx at_ results rest columns relations
      else match result.table, ctx with
        | some target, some ctx' =>
          match attach relations name (toOne setting ctx' name target) at_ with
          | .error e => .error e
          | .ok relations =>
            rebuild setting ctx at_ results rest
              (columns.put (.text (stub name)) (.verbatim (.map setting.settings.foreignKey)))
              relations
        | _, _ => rebuild setting ctx at_ results rest (columns.put name result.schema) relations

/-! ### Arrays of tables -/

/-- How the rows of the target of a relation to many find their owner. -/
inductive Join
  /-- By a column that the array names. -/
  | column (ref : String)
  /-- Through a join table that the array names. -/
  | through (t : Through)
  /-- By a foreign-key column of the target. -/
  | foreignKey (column : String)
deriving DecidableEq, Repr

/-- The join of an array node whose relation is owned by the table around it. -/
def joinOf (settings : Settings) (ctx : Context) (array : Fields) : Reading Join :=
  match (settings.override? .joinToColumn array).filter Value.truthy,
      settings.override? .joinThrough array with
  | some ref, _ => (Reading.under (.text "join_to") (Reading.text 1 ref)).map .column
  | none, none | none, some .null => .ok (.foreignKey (ColumnRef.flatten ctx.idPath))
  | none, some v => (Through.ofValue v).map .through

/-- The relation to many rows of a table. -/
def toMany (setting : Setting η ε) (ctx : Context) (target : Target η) (join : Join) :
    Relation η where
  kind := setting.binder.hasMany
  targetTable := target.tableName
  target := some target.handle
  joinFrom := some ctx.idPath
  joinTo := match join with
    | .column ref => ref
    | .through _ => target.idPath
    | .foreignKey column => (ColumnRef.mk target.tableName column).written
  through := match join with
    | .through t => some t
    | _ => none

/-- Asks for the foreign-key column of a join, if it has one. -/
def requestFor (settings : Settings) (target : Target η) (join : Join) (r : Registry η) :
    Registry η :=
  match join with
  | .foreignKey column => r.request target.tableName column settings.foreignKey
  | _ => r

/-! ### Registering tables -/

/-- The table that a node becomes, before any column has been asked for. -/
def draftOf (setting : Setting η ε) (i : Identity) (rewritten : Entries Scalar Fragment)
    (relations : Entries String (Relation η)) : Draft η :=
  let declared := ((rewritten.get? propertiesKey).bind Fragment.entries?).getD []
  let columns := declared.filter fun e => match e.1 with
    | .text s => !setting.binder.virtual.contains s
    | _ => true
  ⟨i.modelName, i.tableName, i.idColumn, rewritten.put propertiesKey (.map columns), relations⟩

/-- Reads the names of relations, which have to be texts. Of relations whose names are the same
as texts the last one counts. -/
def relationNames (relations : Entries Scalar (Relation η)) :
    Reading (Entries String (Relation η)) :=
  Reading.under (.text "relations") <|
    (Reading.all (relations.map fun e => (Reading.key e.1).map fun name => (name, e.2))).map
      Entries.ofPairs

/-- Registers a table node. -/
def emit (setting : Setting η ε) (at_ : Pointer) (node : Fields)
    (rewritten : Entries Scalar Fragment) (relations : Entries Scalar (Relation η)) :
    Walk η ε (Visit η) := do
  let i ← described (identity setting.settings node)
  let named ← described (relationNames relations)
  let before ← get
  let draft := (draftOf setting i rewritten named).withColumns
    (before.columnsOf i.tableName) setting.settings.foreignKey
  match setting.binder.create before.descriptors (before.describe draft) with
  | .error reason => throw (.binder reason)
  | .ok handle =>
    modify (·.register draft handle at_ relations.length)
    return {
      schema := .table before.drafts.length
      table := some ⟨i.tableName, (ColumnRef.mk i.tableName i.idColumn).written, handle⟩ }

/-- Ends the visit of an array of tables. -/
def finishArray (setting : Setting η ε) (ctx : Option Context) (step : Option Step)
    (at_ : Pointer) (node : Fields) (target : Target η) (schema : Fragment)
    (relations : Entries Scalar (Relation η)) : Walk η ε (Visit η) :=
  match step, ctx with
  | some (.property name), some ctx => do
    let join ← described (joinOf setting.settings ctx node)
    modify (requestFor setting.settings target join)
    let relations ← accepted (attach relations name (toMany setting ctx target join) at_)
    return { schema := schema, relations := relations, removed := true }
  | _, _ => do
    noteAll [.notAttached at_ target.tableName]
    return { schema := schema, relations := relations }

/-- Ends the visit of a node whose children have been visited. -/
def finish (setting : Setting η ε) (ctx : Option Context) (step : Option Step) (at_ : Pointer)
    (node : Fields) (results : Entries Step (Visit η)) (relations : Entries Scalar (Relation η)) :
    Walk η ε (Visit η) := do
  let kept := withoutOverrides setting.settings node
  let (kept, relations) ←
    match node.mapping? "properties" with
    | none => pure (kept, relations)
    | some properties => do
      let (columns, relations) ←
        accepted (rebuild setting ctx at_ results properties [] relations)
      pure (kept.put propertiesKey (.map columns), relations)
  let items := results.get? .items
  let kept := match items with
    | some result => kept.put (.text "items") result.schema
    | none => kept
  if node.isTable then emit setting at_ node kept relations
  else match node.kind, items.bind Visit.table with
    | .arrayOfTable, some target =>
      finishArray setting ctx step at_ node target (.map kept) relations
    | _, _ => return { schema := .map kept, relations := relations }

mutual

/-- Visits a node and all nodes below it. -/
def visit (setting : Setting η ε) (above : Option Context) (step : Option Step)
    (at_ : Pointer) : Tree → Walk η ε (Visit η)
  | .node node children => do
    noteAll (node.unvisitedTables.map fun p => .notVisited (at_ ++ p))
    let ctx ← described (contextOf setting.settings above step node)
    if let some key := badKey? node then throw (.keyNotText key)
    let (results, relations) ← visitAll setting ctx at_ children []
    finish setting ctx step at_ node results relations

/-- Visits the children of a node in order, and collects the relations that no table below has
taken. -/
def visitAll (setting : Setting η ε) (ctx : Option Context) (at_ : Pointer) :
    List (Step × Tree) → Entries Scalar (Relation η) →
      Walk η ε (Entries Step (Visit η) × Entries Scalar (Relation η))
  | [], relations => pure ([], relations)
  | (step, tree) :: rest, relations => do
    let result ← visit setting ctx (some step) (at_ ++ step.path) tree
    let relations ←
      if result.table.isSome then pure relations
      else accepted (merge relations result.relations (at_ ++ step.path))
    let (results, relations) ← visitAll setting ctx at_ rest relations
    return ((step, result) :: results, relations)

end

end Walk

end NestedTables
