import NestedTables.Proofs.Compile.Schemas

/-!
# The columns that a node declares

A property of a table node that is neither a table nor an array of tables is a column of the
table, with what becomes of the property as its schema. A foreign key that the table gets behind
its columns takes nothing away from it. The foreign key that a table under another property leaves
does: written after a column of its name it takes the place of the column, and written before it
it gives way (`compile_declared_columns`). So a column that is declared can be lost
(`compile_declared_columns_lost`).
-/

namespace NestedTables

variable {η ε : Type}

namespace Fields

/-- Whether one of some properties is a table that leaves a foreign key of a name. -/
def LeavesKey (properties : Fields) (name : Scalar) : Prop :=
  ∃ e ∈ properties, e.2.isTable = true ∧ .text (Walk.stub e.1) = name

instance (properties : Fields) (name : Scalar) : Decidable (properties.LeavesKey name) :=
  inferInstanceAs (Decidable (∃ e ∈ properties, e.2.isTable = true ∧
    .text (Walk.stub e.1) = name))

theorem leavesKey_cons {e : Scalar × Value} {es : Fields} {name : Scalar} :
    LeavesKey (e :: es) name ↔
      e.2.isTable = true ∧ .text (Walk.stub e.1) = name ∨ LeavesKey es name := by
  simp only [LeavesKey, List.mem_cons, exists_eq_or_imp]

/-- Whether a property of a table node declares a column: it is neither a table nor an array of
tables, and not left out. The properties written after it are `later`. -/
structure DeclaresColumn (leaves : Scalar → Bool) (node : Fields) (name : Scalar) (v : Value)
    (later : Fields) : Prop where
  written : ∃ earlier, node.mapping? "properties" = some (earlier ++ (name, v) :: later)
  notTable : v.nodeKind ≠ .table
  notArray : v.nodeKind ≠ .arrayOfTable
  stays : leaves name = true

end Fields

namespace Rewriting

variable {w : Rewriting} {at_ : Pointer}

theorem column_of_isTable {k : Scalar} {v : Value} (h : v.isTable = true) :
    w.column at_ k v = [(.text (Walk.stub k), .map w.settings.foreignKey)] := by
  rw [column, nodeKind_eq_table_iff.mpr h]

theorem column_of_declared {k : Scalar} {v : Value} (htable : v.nodeKind ≠ .table)
    (harray : v.nodeKind ≠ .arrayOfTable) :
    w.column at_ k v = [(k, w.value (at_ ++ (Step.property k).path) v)] := by
  unfold column
  split
  · next h => exact absurd h htable
  · next h => exact absurd h harray
  · rfl

/-- A key that no property has is the key of a column only if a table leaves it. -/
theorem get?_columns_of_not_mem {name : Scalar} {properties : Fields}
    (h : name ∉ Entries.keys properties) :
    Entries.get? name (w.columns at_ properties).reverse =
      if properties.LeavesKey name then some (.map w.settings.foreignKey) else none := by
  rw [columns_eq_flatMap]
  induction properties with
  | nil => simp [Fields.LeavesKey]
  | cons e rest ih =>
    obtain ⟨hne, hrest⟩ := not_or.mp (mt List.mem_cons.mpr h)
    rw [List.flatMap_cons, List.reverse_append, Entries.get?_append, ih hrest]
    by_cases hlater : Fields.LeavesKey rest name
    · rw [if_pos hlater, if_pos (Fields.leavesKey_cons.mpr (.inr hlater)), Option.some_or]
    · rw [if_neg hlater, Option.none_or]
      by_cases htable : e.2.isTable = true
      · simp [column_of_isTable htable, Fields.leavesKey_cons, htable, hlater]
      · -- a column has the name of its property
        rw [if_neg (by simp [Fields.leavesKey_cons, htable, hlater]), Entries.get?_eq_none_iff,
          Entries.keys, List.map_reverse, List.mem_reverse]
        intro hmem
        have hkey := keys_column_subset hmem
        rw [if_neg htable, List.mem_singleton] at hkey
        exact hne hkey

/-- **The column of a declared property** is what becomes of the property, if no table written
after it leaves a foreign key of its name. -/
theorem get?_ofPairs_columns {name : Scalar} {v : Value} {earlier later : Fields}
    (hd : Entries.Distinct (earlier ++ (name, v) :: later)) (htable : v.nodeKind ≠ .table)
    (harray : v.nodeKind ≠ .arrayOfTable) :
    Entries.get? name (Entries.ofPairs (w.columns at_ (earlier ++ (name, v) :: later))) =
      some (if later.LeavesKey name then .map w.settings.foreignKey
        else w.value (at_ ++ (Step.property name).path) v) := by
  have hlater : name ∉ Entries.keys later := by
    rw [Entries.Distinct, Entries.keys_append, List.nodup_append] at hd
    exact (List.nodup_cons.mp hd.2.1).1
  have hcolumns : w.columns at_ (earlier ++ (name, v) :: later) =
      w.columns at_ earlier ++
        (name, w.value (at_ ++ (Step.property name).path) v) :: w.columns at_ later := by
    simp only [columns_eq_flatMap, List.flatMap_append, List.flatMap_cons,
      column_of_declared htable harray, List.singleton_append]
  rw [Entries.get?_ofPairs, hcolumns, List.reverse_append, List.reverse_cons, List.append_assoc,
    Entries.get?_append, get?_columns_of_not_mem hlater]
  split <;> simp

/-- The columns of a table, of which those that it has of its own come first. -/
theorem get?_table {leaves : Scalar → Bool} {node : Fields} {foreignKeys : List String}
    {d : Descriptor η} (hd : d.schema = w.table at_ leaves node foreignKeys) {name : Scalar}
    {v : Value} (hv : Entries.get? name (w.ownColumns at_ leaves node) = some v) :
    Entries.get? name d.columns = some v := by
  have hcolumns : d.schema.get? propertiesKey = some (.map (w.ownColumns at_ leaves node ++
      foreignKeys.map fun column => (.text column, .map w.settings.foreignKey))) := by
    rw [hd, table, Entries.get?_put, if_pos rfl]
  rw [Descriptor.columns_eq hcolumns, Entries.get?_append, hv, Option.some_or]

end Rewriting

variable {settings : Settings} {schema : Fields} {binder : Binder η ε}

/-- **The columns that a node declares** are in the descriptor of its table, each with what
becomes of the property, unless a table written after it leaves a foreign key of its name; then
the column is that foreign key. -/
theorem compile_declared_columns (hset : settings.IsValid) (hkeyed : schema.isKeyed = true)
    (hproperties : settings.owns "properties" = false) (hitems : settings.owns "items" = false)
    (binder : Binder η ε) {models : Entries String η}
    (hok : (compile binder settings (.map schema)).result = .ok models) :
    let outcome := compile binder settings (.map schema)
    List.Forall₂
      (fun t d => ∀ name v later,
        t.2.fields.DeclaresColumn (Walk.Setting.leaves ⟨settings, binder⟩) name v later →
          Entries.get? name d.columns =
            some (if later.LeavesKey name then .map settings.foreignKey
              else (outcome.rewriting settings schema).value
                (t.1 ++ (Step.property name).path) v))
      (Tree.ofFields schema).tables outcome.tables := by
  intro outcome
  refine forall₂_of_getElem? (length_tables_of_result_eq_ok hset hkeyed hok) ?_
  intro i t d ht hd name v later hdeclares
  obtain ⟨foreignKeys, -, -, hschema⟩ :=
    exists_schema_eq_table hset hkeyed hproperties hitems hok ht hd
  obtain ⟨earlier, hwritten⟩ := hdeclares.written
  obtain ⟨-, hnode⟩ := Tree.ofFields_of_mem_tables hkeyed (List.mem_of_getElem? ht)
  have hdistinct := ((Fields.isKeyed_iff _).mp (Fields.isKeyed_of_mapping? hnode hwritten)).1
  refine Rewriting.get?_table hschema ?_
  rw [Rewriting.ownColumns, Entries.get?_filter _ hdeclares.stays, hwritten, Option.getD_some]
  exact Rewriting.get?_ofPairs_columns hdistinct hdeclares.notTable hdeclares.notArray

/-- An order that declares the column for its customer before the customer. -/
def declaringSchema : Fields :=
  [(.text "$id", .text "order"),
    (.text "properties", .object
      [("customer_id", .object [("type", .text "string")]),
        ("customer", .object [("$id", .text "customer")])])]

theorem result_declaringSchema :
    (compile (Binder.counting : Binder Nat Empty) {} (.map declaringSchema)).result =
      .ok [("customer", 0), ("order", 1)] := by
  rfl

theorem declaresColumn_declaringSchema :
    declaringSchema.DeclaresColumn (Walk.Setting.leaves ⟨{}, (Binder.counting : Binder Nat Empty)⟩)
      (.text "customer_id") (.object [("type", .text "string")])
      [(.text "customer", .object [("$id", .text "customer")])] where
  written := ⟨[], rfl⟩
  notTable := by decide
  notArray := by decide
  stays := by decide

/-- **A declared column can be lost**: that of the order is an integer, and not the text that it
was declared to be. -/
theorem compile_declared_columns_lost :
    let outcome := compile (Binder.counting : Binder Nat Empty) {} (.map declaringSchema)
    outcome.result = .ok [("customer", 0), ("order", 1)] ∧
      ¬ List.Forall₂
        (fun t d => ∀ name v later,
          t.2.fields.DeclaresColumn
            (Walk.Setting.leaves ⟨{}, (Binder.counting : Binder Nat Empty)⟩) name v later →
              Entries.get? name d.columns = some ((outcome.rewriting {} declaringSchema).value
                (t.1 ++ (Step.property name).path) v))
        (Tree.ofFields declaringSchema).tables outcome.tables := by
  intro outcome
  refine ⟨result_declaringSchema, fun h => ?_⟩
  have horder := (List.forall₂_iff_get.mp h).2 1 (by decide) (by decide)
  have hget := horder _ _ _ declaresColumn_declaringSchema
  have hcolumn : Entries.get? (.text "customer_id") (outcome.tables.get ⟨1, by decide⟩).columns =
      some (.object [("type", .text "integer")]) := by
    rfl
  have hdeclared : ∀ at_, (outcome.rewriting {} declaringSchema).value at_
      (.object [("type", .text "string")]) = .object [("type", .text "string")] := by
    intro at_
    have htype : ({} : Settings).owns "type" = false := by decide
    rw [Value.object, Rewriting.value, Rewriting.entries_eq_map]
    simp [Rewriting.owns, Rewriting.entry, Outcome.rewriting, htype, propertiesKey]
  rw [hcolumn, hdeclared] at hget
  simp [Value.object, Value.text] at hget

/-- The columns that the order declares, one of which gives way to a foreign key. -/
theorem compile_declared_columns_order :
    ({} : Settings).IsValid ∧ declaringSchema.isKeyed = true ∧
      ({} : Settings).owns "properties" = false ∧ ({} : Settings).owns "items" = false ∧
      (compile (Binder.counting : Binder Nat Empty) {} (.map declaringSchema)).result =
        .ok [("customer", 0), ("order", 1)] ∧
      let outcome := compile (Binder.counting : Binder Nat Empty) {} (.map declaringSchema)
      List.Forall₂
        (fun t d => ∀ name v later,
          t.2.fields.DeclaresColumn
            (Walk.Setting.leaves ⟨{}, (Binder.counting : Binder Nat Empty)⟩) name v later →
              Entries.get? name d.columns =
                some (if later.LeavesKey name then .map ({} : Settings).foreignKey
                  else (outcome.rewriting {} declaringSchema).value
                    (t.1 ++ (Step.property name).path) v))
        (Tree.ofFields declaringSchema).tables outcome.tables := by
  have hkeyed : declaringSchema.isKeyed = true := by decide
  have hproperties : ({} : Settings).owns "properties" = false := by decide
  have hitems : ({} : Settings).owns "items" = false := by decide
  exact ⟨Settings.isValid_default, hkeyed, hproperties, hitems, result_declaringSchema,
    compile_declared_columns Settings.isValid_default hkeyed hproperties hitems Binder.counting
      result_declaringSchema⟩

end NestedTables
