import NestedTables.Proofs.Compile.Schemas
import NestedTables.Proofs.Compile.Targets

/-!
# Tables wherever they stand

A walk refers to tables by their places, and the places of the tables inside a table follow one
another. So what a walk makes of a node depends on the number of tables before it in one way only:
all references are shifted by that number (`Walk.outline_shift`).

It follows that a table is registered as if it stood alone, with its own tables counted from zero
(`Walk.Setting.draft`), and that its descriptor is read off this draft with the schemas and the
handles of the tables inside it and with the columns that have been asked for
(`exists_located`). Of all that surrounds the table nothing else is left.
-/

namespace NestedTables

variable {η θ ε δ : Type}

/-! ### References that are shifted -/

namespace Fragment

mutual

/-- The document with its references to tables moved up by some places. -/
def shift (by_ : Nat) : Fragment → Fragment
  | .verbatim v => .verbatim v
  | .map es => .map (shiftEntries by_ es)
  | .table place => .table (by_ + place)

def shiftEntries (by_ : Nat) : List (Scalar × Fragment) → List (Scalar × Fragment)
  | [] => []
  | (k, f) :: es => (k, shift by_ f) :: shiftEntries by_ es

end

theorem shiftEntries_eq_mapValues (by_ : Nat) (es : Entries Scalar Fragment) :
    shiftEntries by_ es = es.mapValues (shift by_) := by
  induction es with
  | nil => rfl
  | cons e es ih =>
    obtain ⟨k, f⟩ := e
    rw [shiftEntries, ih, Entries.mapValues_cons]

@[simp] theorem shift_verbatim (by_ : Nat) (v : Value) :
    shift by_ (.verbatim v) = .verbatim v := rfl

@[simp] theorem shift_map (by_ : Nat) (es : Entries Scalar Fragment) :
    shift by_ (.map es) = .map (es.mapValues (shift by_)) := by
  rw [shift, shiftEntries_eq_mapValues]

mutual

/-- **Shifting the references** is leaving out the first of the tables. -/
theorem resolve_shift (by_ : Nat) (tables : List Fields) :
    ∀ f : Fragment, (f.shift by_).resolve tables = f.resolve (tables.drop by_)
  | .verbatim _ => rfl
  | .map es => by
    rw [shift, resolve, resolve, resolveEntries_shift by_ tables es]
  | .table place => by
    simp [shift, resolve, List.getD_eq_getElem?_getD]

theorem resolveEntries_shift (by_ : Nat) (tables : List Fields) :
    ∀ es : List (Scalar × Fragment),
      resolveEntries tables (shiftEntries by_ es) = resolveEntries (tables.drop by_) es
  | [] => rfl
  | (k, f) :: es => by
    rw [shiftEntries, resolveEntries, resolveEntries, resolve_shift by_ tables f,
      resolveEntries_shift by_ tables es]

end

end Fragment

/-- What is handed up with another schema. -/
def Visit.withSchema (f : Fragment → Fragment) (v : Visit η) : Visit η :=
  { v with schema := f v.schema }

/-- What is handed up when there are more tables before. -/
def Visit.shift (by_ : Nat) (v : Visit Nat) : Visit Nat :=
  (v.map (by_ + ·)).withSchema (Fragment.shift by_)

/-- A table when there are more tables before those inside it. -/
def Draft.shift (by_ : Nat) (d : Draft Nat) : Draft Nat :=
  { d with
    schema := d.schema.mapValues (Fragment.shift by_)
    relations := d.relations.mapValues (Relation.map (by_ + ·)) }

namespace Walk

variable (setting : Setting η ε)

/-! ### One node -/

section Node

variable (ctx : Option Context) (results : Entries Step (Visit η))

theorem gathered_withSchema (f : Fragment → Fragment) :
    gathered setting ctx (results.mapValues (Visit.withSchema f)) =
      gathered setting ctx results := by
  have hup : handedUp (results.mapValues (Visit.withSchema f)) = handedUp results := by
    simp only [handedUp, Entries.mapValues, List.flatMap_map]
    rfl
  have hone : (results.mapValues (Visit.withSchema f)).filterMap (one? setting ctx) =
      results.filterMap (one? setting ctx) := by
    rw [Entries.mapValues, List.filterMap_map]
    rfl
  rw [gathered, hup, hone, gathered]

theorem many?_withSchema (f : Fragment → Fragment) (step : Option Step) (node : Fields) :
    many? ctx step node (results.mapValues (Visit.withSchema f)) =
      many? ctx step node results := by
  have htarget : ((results.mapValues (Visit.withSchema f)).get? .items).bind Visit.table =
      (results.get? .items).bind Visit.table := by
    rw [Entries.get?_mapValues, Option.bind_map]
    rfl
  simp only [many?, htarget]

theorem columnsOf_withSchema (by_ : Nat) (properties : Fields) :
    columnsOf setting ctx (results.mapValues (Visit.withSchema (Fragment.shift by_))) properties =
      (columnsOf setting ctx results properties).mapValues (Fragment.shift by_) := by
  suffices hfold : ∀ columns : Entries Scalar Fragment,
      properties.foldl (withProperty setting ctx
          (results.mapValues (Visit.withSchema (Fragment.shift by_))))
        (columns.mapValues (Fragment.shift by_)) =
      (properties.foldl (withProperty setting ctx results) columns).mapValues
        (Fragment.shift by_) from hfold []
  induction properties with
  | nil => exact fun _ => rfl
  | cons e properties ih =>
    intro columns
    rw [List.foldl_cons, List.foldl_cons, ← ih]
    congr 1
    unfold withProperty
    rw [Entries.get?_mapValues]
    cases results.get? (.property e.1) with
    | none => simp [Entries.mapValues_put]
    | some v =>
      obtain ⟨schema, relations, table, removed⟩ := v
      cases table <;> cases removed <;> cases ctx <;>
        simp [Visit.withSchema, Entries.mapValues_put]

theorem keptOf_withSchema (by_ : Nat) (node : Fields) :
    keptOf setting ctx node (results.mapValues (Visit.withSchema (Fragment.shift by_))) =
      (keptOf setting ctx node results).mapValues (Fragment.shift by_) := by
  have hkept : (withoutOverrides setting.settings node).mapValues (Fragment.shift by_) =
      withoutOverrides setting.settings node := by
    simp [withoutOverrides, Entries.mapValues, Function.comp_def]
  unfold keptOf
  rw [Entries.get?_mapValues]
  simp only [columnsOf_withSchema]
  cases node.mapping? "properties" <;> cases results.get? .items <;>
    simp [Visit.withSchema, Entries.mapValues_put, hkept]

end Node

section Shift

variable (by_ : Nat) (ctx : Option Context) (results : Entries Step (Visit Nat))

theorem mapValues_shift :
    results.mapValues (Visit.shift by_) =
      (results.mapValues (Visit.map (by_ + ·))).mapValues
        (Visit.withSchema (Fragment.shift by_)) := by
  simp [Entries.mapValues, Function.comp_def, Visit.shift]

theorem keptOf_shift (node : Fields) :
    keptOf (setting.words : Setting Nat Unit) ctx node (results.mapValues (Visit.shift by_)) =
      (keptOf (setting.words : Setting Nat Unit) ctx node results).mapValues
        (Fragment.shift by_) := by
  rw [mapValues_shift, keptOf_withSchema]
  exact congrArg _ (keptOf_map (setting.words : Setting Nat Unit) ctx (by_ + ·) results node)

theorem gathered_shift :
    gathered (setting.words : Setting Nat Unit) ctx (results.mapValues (Visit.shift by_)) =
      (gathered (setting.words : Setting Nat Unit) ctx results).mapValues
        (Relation.map (by_ + ·)) := by
  rw [mapValues_shift, gathered_withSchema]
  exact gathered_map (setting.words : Setting Nat Unit) ctx (by_ + ·) results

theorem manyOf_shift (step : Option Step) (node : Fields) :
    manyOf (setting.words : Setting Nat Unit) ctx step node
        (results.mapValues (Visit.shift by_)) =
      (manyOf (setting.words : Setting Nat Unit) ctx step node results).mapValues
        (Relation.map (by_ + ·)) := by
  rw [manyOf, mapValues_shift, many?_withSchema]
  exact manyOf_map (setting.words : Setting Nat Unit) ctx (by_ + ·) results step node

theorem isSome_many?_shift (step : Option Step) (node : Fields) :
    (many? ctx step node (results.mapValues (Visit.shift by_))).isSome =
      (many? ctx step node results).isSome := by
  rw [mapValues_shift, many?_withSchema, many?_map, Option.isSome_map]

theorem handUp_shift (step : Option Step) (node : Fields) (place : Nat) :
    handUp setting ctx step node (by_ + place) (results.mapValues (Visit.shift by_)) =
      (handUp setting ctx step node place results).shift by_ := by
  cases htable : node.isTable with
  | true =>
    simp only [handUp, htable, if_true]
    rfl
  | false =>
    simp only [handUp, htable, Bool.false_eq_true, if_false, keptOf_shift, gathered_shift,
      manyOf_shift, isSome_many?_shift, Visit.shift, Visit.withSchema, Visit.map,
      Fragment.shift_map, Entries.mapValues_append, Option.map_none]

end Shift

/-! ### The recursion -/

section Recursion

variable {setting} {setting' : Setting θ δ}

theorem handUp_congr (h : (setting'.words : Setting Nat Unit) = (setting.words : Setting Nat Unit))
    (ctx : Option Context) (step : Option Step) (node : Fields) (place : Nat)
    (results : Entries Step (Visit Nat)) :
    handUp setting' ctx step node place results = handUp setting ctx step node place results := by
  have hsettings : setting'.settings = setting.settings := congrArg Setting.settings h
  simp only [handUp, hsettings, h]

mutual

/-- **What a node hands up** depends on the tables before it in nothing but the places, and on the
words of the setting alone. -/
theorem outline_shift
    (h : (setting'.words : Setting Nat Unit) = (setting.words : Setting Nat Unit)) (by_ : Nat)
    (above : Option Context) (step : Option Step) (start : Nat) :
    ∀ tree : Tree, outline setting' above step (by_ + start) tree =
      (outline setting above step start tree).shift by_
  | .node node children => by
    have hsettings : setting'.settings = setting.settings := congrArg Setting.settings h
    rw [outline, outline, hsettings, outlineAll_shift h by_ _ start children, handUp_congr h,
      Nat.add_assoc, handUp_shift]

theorem outlineAll_shift
    (h : (setting'.words : Setting Nat Unit) = (setting.words : Setting Nat Unit)) (by_ : Nat)
    (ctx : Option Context) (start : Nat) :
    ∀ children : List (Step × Tree), outlineAll setting' ctx (by_ + start) children =
      (outlineAll setting ctx start children).mapValues (Visit.shift by_)
  | [] => rfl
  | (step, tree) :: rest => by
    rw [outlineAll, outlineAll, outline_shift h by_ ctx (some step) start tree, Nat.add_assoc,
      outlineAll_shift h by_ ctx (start + tree.tableCount) rest, Entries.mapValues_cons]

end

end Recursion

/-! ### The table that a node becomes -/

theorem entries?_shift (by_ : Nat) (f : Fragment) :
    (f.shift by_).entries? = f.entries?.map (Entries.mapValues (Fragment.shift by_)) := by
  cases f with
  | verbatim v => rfl
  | map es => simp [Fragment.entries?]
  | table place => rfl

theorem draftOf_shift (by_ : Nat) (i : Identity) (kept : Entries Scalar Fragment)
    (relations : Entries String (Relation Nat)) :
    draftOf (setting.words : Setting Nat Unit) i (kept.mapValues (Fragment.shift by_))
        (relations.mapValues (Relation.map (by_ + ·))) =
      (draftOf (setting.words : Setting Nat Unit) i kept relations).shift by_ := by
  have hdeclared : ((kept.mapValues (Fragment.shift by_)).get? propertiesKey).bind
      Fragment.entries? = ((kept.get? propertiesKey).bind Fragment.entries?).map
        (Entries.mapValues (Fragment.shift by_)) := by
    rw [Entries.get?_mapValues]
    cases kept.get? propertiesKey <;> simp [entries?_shift]
  simp only [draftOf, hdeclared, Draft.shift, Entries.mapValues_put, Fragment.shift_map]
  cases (kept.get? propertiesKey).bind Fragment.entries? <;>
    simp [Entries.mapValues, List.filter_map, Function.comp_def]

/-- **The table that a node becomes**, if no table has been registered before those inside it. -/
def Setting.draft (setting : Setting η ε) (node : Fields) : Draft Nat :=
  let ctx := some ((Tree.ofFields node).context setting.settings)
  outlineDraft setting ctx node (outlineAll setting ctx 0 node.subtrees)

/-- **A table is registered as if it stood alone**, with its references shifted. -/
theorem outlineDraft_eq_shift {setting : Setting η ε} {setting' : Setting θ δ}
    (h : (setting'.words : Setting Nat Unit) = (setting.words : Setting Nat Unit)) (start : Nat)
    (node : Fields) :
    let ctx := some ((Tree.ofFields node).context setting'.settings)
    outlineDraft setting' ctx node (outlineAll setting' ctx start node.subtrees) =
      (setting.draft node).shift start := by
  have hsettings : setting'.settings = setting.settings := congrArg Setting.settings h
  have hall := outlineAll_shift h start
    (some ((Tree.ofFields node).context setting.settings)) 0 node.subtrees
  rw [Nat.add_zero] at hall
  simp only [hsettings, hall, Setting.draft, outlineDraft, h, keptOf_shift, gathered_shift]
  rw [← draftOf_shift]
  simp [textKeys, Entries.mapValues, Function.comp_def]

/-- The table that a node becomes depends on the words of the setting alone. -/
theorem Setting.draft_congr {setting : Setting η ε} {setting' : Setting θ δ}
    (h : (setting'.words : Setting Nat Unit) = (setting.words : Setting Nat Unit))
    (node : Fields) : setting'.draft node = setting.draft node :=
  (outlineDraft_eq_shift h 0 node).trans (outlineDraft_eq_shift rfl 0 node).symm

end Walk

/-! ### Descriptors -/

namespace Draft

variable (by_ : Nat) (d : Draft Nat)

@[simp] theorem columns_shift :
    (d.shift by_).columns = d.columns.mapValues (Fragment.shift by_) := by
  have hget : (d.shift by_).schema.get? propertiesKey =
      (d.schema.get? propertiesKey).map (Fragment.shift by_) := by
    rw [shift, Entries.get?_mapValues]
  rw [columns, columns, hget]
  cases d.schema.get? propertiesKey with
  | none => rfl
  | some f =>
    rw [Option.map_some, Option.bind_some, Option.bind_some, Walk.entries?_shift]
    cases f.entries? <;> rfl

/-- A table is given columns wherever it stands. -/
theorem withColumns_shift (columns : List String) (foreignKey : Fields) :
    (d.shift by_).withColumns columns foreignKey =
      (d.withColumns columns foreignKey).shift by_ := by
  induction columns using List.reverseRecOn with
  | nil => rfl
  | append_singleton columns column ih =>
    rw [withColumns_append_singleton, withColumns_append_singleton, ih]
    generalize d.withColumns columns foreignKey = d'
    have hcolumns : (d'.shift by_).columns.putNew (.text column)
        (.verbatim (.map foreignKey)) =
        (d'.columns.putNew (.text column) (.verbatim (.map foreignKey))).mapValues
          (Fragment.shift by_) := by
      rw [columns_shift, Entries.putNew, Entries.putNew, Entries.has, Entries.get?_mapValues,
        Option.isSome_map, Entries.has]
      split
      · rfl
      · rw [Entries.mapValues_append]
        rfl
    simp only [withColumn, setColumns, hcolumns]
    simp only [shift, Entries.mapValues_put, Fragment.shift_map]

theorem withHandles_shift (handles : List η) :
    (d.shift by_).withHandles handles =
      { d.withHandles (handles.drop by_) with
        schema := d.schema.mapValues (Fragment.shift by_) } := by
  simp [withHandles, shift, Entries.mapValues, Relation.withHandles, Relation.map,
    Option.bind_map, Function.comp_def]

theorem withColumns_withHandles (handles : List η) (columns : List String) (foreignKey : Fields) :
    (d.withHandles handles).withColumns columns foreignKey =
      (d.withColumns columns foreignKey).withHandles handles := by
  induction columns using List.reverseRecOn with
  | nil => rfl
  | append_singleton columns column ih =>
    rw [withColumns_append_singleton, withColumns_append_singleton, ih]
    rfl

/-- The descriptor of a table with the given foreign-key columns, in which the schemas and the
handles of the tables inside it are put in. -/
def located (settings : Settings) (schemas : List Fields) (handles : List η)
    (columns : List String) : Descriptor η :=
  let table := d.withColumns columns settings.foreignKey
  (table.withHandles handles).describe (Fragment.resolveEntries schemas table.schema)

end Draft

/-- The schema of a table with some foreign keys: what its node becomes, with the foreign keys
behind the columns that the table does not have of its own. -/
theorem Draft.schema_located (setting : Walk.Setting η ε) {node : Fields}
    (hkeyed : node.isKeyed = true) (schemas : List Fields) (handles : List θ)
    {columns : List String} (hnodup : columns.Nodup) :
    let ctx := some ((Tree.ofFields node).context setting.settings)
    let own := Walk.ownColumns setting 0 node
    ((setting.draft node).located setting.settings schemas handles columns).schema =
      Entries.put propertiesKey (.map (own.mapValues (Fragment.resolve schemas) ++
        (columns.filter fun column => !own.has (.text column)).map fun column =>
          (.text column, .map setting.settings.foreignKey)))
        (Fragment.resolveEntries schemas (Walk.keptOf (setting.words : Walk.Setting Nat Unit) ctx
          node (Walk.outlineAll setting ctx 0 node.subtrees))) := by
  intro ctx own
  have hschema : (setting.draft node).schema =
      (Walk.keptOf (setting.words : Walk.Setting Nat Unit) ctx node
        (Walk.outlineAll setting ctx 0 node.subtrees)).put propertiesKey (.map own) :=
    Walk.schema_outlineDraft_eq setting hkeyed 0
  have hown : (setting.draft node).columns = own := by
    rw [Draft.columns, hschema, Entries.get?_put, if_pos rfl]
    rfl
  have hget : (setting.draft node).schema.get? propertiesKey =
      some (.map (setting.draft node).columns) := by
    rw [hown, hschema, Entries.get?_put, if_pos rfl]
  change Fragment.resolveEntries schemas ((setting.draft node).withColumns columns _).schema = _
  rw [Draft.schema_withColumns _ _ hnodup hget, Draft.missing, hown, hschema, Entries.put_put,
    Fragment.resolveEntries_eq_mapValues, Fragment.resolveEntries_eq_mapValues,
    Entries.mapValues_put, Fragment.resolve, Fragment.resolveEntries_eq_mapValues,
    Entries.mapValues_append]
  -- a foreign key is there as it is
  simp [Draft.foreignKeys, Entries.mapValues, Function.comp_def, Fragment.resolve]

/-- The columns of a table with some foreign keys. -/
theorem Draft.columns_located (setting : Walk.Setting η ε) {node : Fields}
    (hkeyed : node.isKeyed = true) (schemas : List Fields) (handles : List θ)
    {columns : List String} (hnodup : columns.Nodup) :
    let own := Walk.ownColumns setting 0 node
    ((setting.draft node).located setting.settings schemas handles columns).columns =
      own.mapValues (Fragment.resolve schemas) ++
        (columns.filter fun column => !own.has (.text column)).map fun column =>
          (.text column, .map setting.settings.foreignKey) := by
  refine Descriptor.columns_eq ?_
  rw [Draft.schema_located setting hkeyed schemas handles hnodup, Entries.get?_put, if_pos rfl]

/-- **What a registered table depends on.** The descriptor at a place is that of the draft of its
node, with the schemas and the handles of the tables inside it, which have the places right before
it, and with the columns that have been asked for of the tables of its name. -/
theorem exists_located {setting : Walk.Setting η ε} {root : Fields} (hkeyed : root.isKeyed = true)
    {log : List Event} {s : Stage η} (h : (Stage.start log).Performs setting
      (Walk.acts setting none none [] 0 (Tree.ofFields root)) s) {i : Nat} {d : Descriptor η}
    (hd : s.registry.descriptors[i]? = some d) :
    ∃ t start, (Tree.ofFields root).tables[i]? = some t ∧
      start + Tree.countBelow t.2.fields.subtrees = i ∧
      d = (setting.draft t.2.fields).located setting.settings
        (((s.registry.descriptors.take i).map Descriptor.schema).drop start)
        ((s.handles.take i).drop start)
        (Act.asked (t.2.fields.names setting.settings).tableName
          (Walk.acts setting none none [] 0 (Tree.ofFields root))).eraseDups := by
  obtain ⟨built, hbuilt, rfl⟩ := Registry.getElem?_descriptors hd
  obtain ⟨t, start, r, ht, hstart, hr, ⟨earlier, -, hmade⟩, hdraft⟩ :=
    exists_outlineDraft hkeyed h hbuilt
  generalize Walk.acts setting none none [] 0 (Tree.ofFields root) = acts at h hr hmade ⊢
  have htargeted : Stage.Targeted ([] ++ acts) s := h.targeted .nil
  obtain ⟨⟨r', i'⟩, hr', -, hrelations⟩ := exists_getElem?_of_forall₂ htargeted hbuilt
  rw [List.nil_append, List.getElem?_zipIdx, hr, Option.map_some, Option.some.injEq,
    Nat.zero_add] at hr'
  obtain ⟨rfl, rfl⟩ := Prod.mk.inj hr'
  refine ⟨t, start, ht, hstart, ?_⟩
  have hshift : r.2 = (setting.draft t.2.fields).shift start :=
    hdraft.trans (Walk.outlineDraft_eq_shift rfl start t.2.fields)
  -- the handles are those that were there when the table was registered
  have hhandles : built = (r.2.withColumns (Act.asked r.2.tableName acts).eraseDups
      setting.settings.foreignKey).withHandles (s.handles.take i) := by
    rw [Draft.withColumns_withHandles] at hmade
    rw [hmade] at hrelations ⊢
    simp only [Draft.withHandles, Draft.withColumns_relations] at hrelations ⊢
    rw [hrelations]
  rw [hhandles, hshift, Draft.withColumns_shift, Draft.withHandles_shift, Draft.located]
  simp only [Draft.describe, ← Fragment.shiftEntries_eq_mapValues,
    Fragment.resolveEntries_shift]
  rfl

end NestedTables
