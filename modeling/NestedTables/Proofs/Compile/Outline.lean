import NestedTables.Proofs.Compile.Act
import NestedTables.Proofs.Compile.Names
import NestedTables.Proofs.Schema.Site

/-!
# The outline of a walk

What a walk hands up from a node, and the acts that it performs there, follow from the schema
alone, if the places of the tables stand for their handles. The binder is never asked.

* `Walk.outline` is what the visit of a node hands up.
* `Walk.acts` are the acts that the visit sets out to perform.

Both are recursions over the tree that go along with `Walk.visit`, and both leave out all that
can fail: relations are put together whether their names are different or not. What one node
contributes, once its children have been visited, is said by functions that know nothing of the
recursion: `Walk.gathered` puts together the relations, `Walk.keptOf` rewrites the node,
`Walk.many?` is the relation of an array of tables.
-/

namespace NestedTables

variable {η θ ε α : Type}

/-! ### Other handles -/

/-- The relation with another handle. -/
def Relation.map (f : η → θ) (r : Relation η) : Relation θ :=
  { r with target := r.target.map f }

/-- The target with another handle. -/
def Target.map (f : η → θ) (t : Target η) : Target θ where
  tableName := t.tableName
  idPath := t.idPath
  handle := f t.handle

/-- What is handed up, with other handles. -/
def Visit.map (f : η → θ) (v : Visit η) : Visit θ where
  schema := v.schema
  relations := Entries.mapValues (Relation.map f) v.relations
  table := v.table.map (Target.map f)
  removed := v.removed

/-- A relation whose handle is the one that a place stands for is the relation with that
handle. -/
theorem Relation.eq_withHandles {handles : List η} {r : Relation η} {p : Relation Nat}
    (h : r.map some = p.map (handles[·]?)) : r = p.withHandles handles := by
  obtain ⟨kind, table, target, joinFrom, joinTo, through⟩ := r
  obtain ⟨kind', table', target', joinFrom', joinTo', through'⟩ := p
  simp only [Relation.map, Relation.mk.injEq] at h
  obtain ⟨rfl, rfl, htarget, rfl, rfl, rfl⟩ := h
  simp only [Relation.withHandles, Relation.mk.injEq, true_and, and_true]
  cases target <;> cases target' <;> simp_all

namespace Walk

/-- The words of a setting, for any kind of handles. It registers no tables. -/
def Setting.words (setting : Setting η ε) : Setting θ Unit where
  settings := setting.settings
  binder :=
    { virtual := setting.binder.virtual
      belongsToOne := setting.binder.belongsToOne
      hasMany := setting.binder.hasMany
      create := fun _ _ => .error () }

/-- The context of a node, whose names can be read. -/
def contextIn (settings : Settings) (above : Option Context) (step : Option Step)
    (node : Fields) : Option Context :=
  if node.isTable then
    some (.ofTable (node.names settings).tableName (node.names settings).idColumn)
  else match above, step with
    | some ctx, some step => some (ctx.child step.key.plain)
    | _, _ => none

theorem contextOf_eq_ok {settings : Settings} {node : Fields} (h : node.Sound settings)
    (above : Option Context) (step : Option Step) :
    contextOf settings above step node = .ok (contextIn settings above step node) := by
  unfold contextOf contextIn
  split
  · next htable =>
    rw [h.identity htable]
    rfl
  · rfl

/-! ### What a node makes of the results of its children -/

variable (setting : Setting η ε)

/-- The relations of the children that are no tables. -/
def handedUp (results : Entries Step (Visit η)) : Entries Scalar (Relation η) :=
  results.flatMap fun e => if e.2.table.isSome then [] else e.2.relations

/-- The relation to a child that is a table and a property. -/
def one? (ctx : Option Context) (e : Step × Visit η) : Option (Scalar × Relation η) :=
  match e.1, e.2.removed, e.2.table, ctx with
  | .property name, false, some target, some ctx => some (name, toOne setting ctx name target)
  | _, _, _, _ => none

/-- The relations of a node before it is known what the node itself is. -/
def gathered (ctx : Option Context) (results : Entries Step (Visit η)) :
    Entries Scalar (Relation η) :=
  handedUp results ++ results.filterMap (one? setting ctx)

/-- The columns of a node with one more property. -/
def withProperty (ctx : Option Context) (results : Entries Step (Visit η))
    (columns : Entries Scalar Fragment) (e : Scalar × Value) : Entries Scalar Fragment :=
  match results.get? (.property e.1) with
  | none => columns.put e.1 (.verbatim e.2)
  | some result =>
    if result.removed then columns
    else match result.table, ctx with
      | some _, some _ =>
        columns.put (.text (stub e.1)) (.verbatim (.map setting.settings.foreignKey))
      | _, _ => columns.put e.1 result.schema

/-- What the properties of a node become. -/
def columnsOf (ctx : Option Context) (results : Entries Step (Visit η)) (properties : Fields) :
    Entries Scalar Fragment :=
  properties.foldl (withProperty setting ctx results) []

/-- What the entries of a node become. -/
def keptOf (ctx : Option Context) (node : Fields) (results : Entries Step (Visit η)) :
    Entries Scalar Fragment :=
  let kept := withoutOverrides setting.settings node
  let kept := match node.mapping? "properties" with
    | none => kept
    | some properties => kept.put propertiesKey (.map (columnsOf setting ctx results properties))
  match results.get? .items with
  | none => kept
  | some result => kept.put (.text "items") result.schema

/-- The owner and the target of the relation that an array of tables becomes, with its name. -/
def many? (ctx : Option Context) (step : Option Step) (node : Fields)
    (results : Entries Step (Visit η)) : Option (Scalar × Context × Target η) :=
  match node.kind, (results.get? .items).bind Visit.table, step, ctx with
  | .arrayOfTable, some target, some (.property name), some ctx => some (name, ctx, target)
  | _, _, _, _ => none

/-- The relation that an array of tables becomes, if it becomes one. -/
def manyOf (ctx : Option Context) (step : Option Step) (node : Fields)
    (results : Entries Step (Visit η)) : Entries Scalar (Relation η) :=
  (many? ctx step node results).toList.map fun m =>
    (m.1, toMany setting m.2.1 m.2.2 (node.join setting.settings m.2.1.idPath))

/-- What a node hands up when its children have been visited; `place` is its place if it is a
table. -/
def handUp (ctx : Option Context) (step : Option Step) (node : Fields) (place : Nat)
    (results : Entries Step (Visit Nat)) : Visit Nat :=
  if node.isTable then
    { schema := .table place
      table := some ⟨(node.names setting.settings).tableName, node.idPath setting.settings, place⟩ }
  else
    { schema := .map (keptOf setting.words ctx node results)
      relations := gathered setting.words ctx results ++ manyOf setting.words ctx step node results
      removed := (many? ctx step node results).isSome }

/-- The texts that names of relations are. -/
def textKeys (relations : Entries Scalar α) : Entries String α :=
  relations.map fun e => (e.1.plain, e.2)

/-- The table that a node becomes, with places for handles. -/
def outlineDraft (ctx : Option Context) (node : Fields) (results : Entries Step (Visit Nat)) :
    Draft Nat :=
  draftOf setting.words (node.names setting.settings) (keptOf setting.words ctx node results)
    (textKeys (gathered setting.words ctx results))

/-- What a join asks of the tables of a name. -/
def joinActs (table : String) : Join → List Act
  | .foreignKey column => [.request table column]
  | _ => []

/-- The acts at a node that is no table when its children have been visited. Only an array of
tables does something. -/
def arrayActs (ctx : Option Context) (step : Option Step) (at_ : Pointer) (node : Fields)
    (results : Entries Step (Visit θ)) : List Act :=
  match many? ctx step node results, node.kind, (results.get? .items).bind Visit.table with
  | some (_, owner, target), _, _ =>
    joinActs target.tableName (node.join setting.settings owner.idPath)
  | none, .arrayOfTable, some target => [.note [.notAttached at_ target.tableName]]
  | _, _, _ => []

/-- The acts at a node when its children have been visited. -/
def lastActs (ctx : Option Context) (step : Option Step) (at_ : Pointer) (node : Fields)
    (results : Entries Step (Visit Nat)) : List Act :=
  if node.isTable then [.register at_ (outlineDraft setting ctx node results)]
  else arrayActs setting ctx step at_ node results

/-! ### The recursion -/

mutual

/-- What the visit of a node hands up, with places for handles; `start` is the number of tables
registered before. -/
def outline (above : Option Context) (step : Option Step) (start : Nat) : Tree → Visit Nat
  | .node node children =>
    let ctx := contextIn setting.settings above step node
    handUp setting ctx step node (start + Tree.countBelow children)
      (outlineAll ctx start children)

def outlineAll (ctx : Option Context) (start : Nat) :
    List (Step × Tree) → Entries Step (Visit Nat)
  | [] => []
  | (step, tree) :: rest =>
    (step, outline ctx (some step) start tree) :: outlineAll ctx (start + tree.tableCount) rest

end

mutual

/-- The acts that the visit of a node sets out to perform; `start` is the number of tables
registered before. -/
def acts (above : Option Context) (step : Option Step) (at_ : Pointer) (start : Nat) :
    Tree → List Act
  | .node node children =>
    let ctx := contextIn setting.settings above step node
    [.note (node.unvisitedTables.map fun p => .notVisited (at_ ++ p))] ++
      (actsBelow ctx at_ start children ++
        lastActs setting ctx step at_ node (outlineAll setting ctx start children))

def actsBelow (ctx : Option Context) (at_ : Pointer) (start : Nat) :
    List (Step × Tree) → List Act
  | [] => []
  | (step, tree) :: rest =>
    acts ctx (some step) (at_ ++ step.path) start tree ++
      actsBelow ctx at_ (start + tree.tableCount) rest

end

@[simp] theorem keys_outlineAll (ctx : Option Context) (start : Nat)
    (children : List (Step × Tree)) :
    Entries.keys (outlineAll setting ctx start children) = children.map (·.1) := by
  induction children generalizing start with
  | nil => rfl
  | cons c rest ih =>
    obtain ⟨step, tree⟩ := c
    have hcons : Entries.keys (outlineAll setting ctx start ((step, tree) :: rest)) =
        step :: Entries.keys (outlineAll setting ctx (start + tree.tableCount) rest) := rfl
    rw [hcons, ih, List.map_cons]

end Walk

end NestedTables
