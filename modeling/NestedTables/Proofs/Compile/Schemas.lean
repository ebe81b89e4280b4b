import NestedTables.Proofs.Compile.Columns
import NestedTables.Proofs.Compile.Rewritten
import NestedTables.Proofs.Schema.Place

/-!
# The schemas of a compiled schema

When a compilation gives a result, the schema of every table is the rewriting of its node, with
the foreign-key columns behind that relations to many have asked for (`compile_schemas`). A table
that stays inside another one is seen there with the schema of its own descriptor.

A column can take the place of another one of the same name. That does not happen if no property
of a node has the name of a foreign key that one of its tables leaves; then the columns of a node
are what the properties become, in their order.
-/

namespace NestedTables

variable {η ε : Type}

/-! ### Tables by pointer -/

/-- The schemas of the registered tables of a schema, by the pointers of their nodes. -/
def Outcome.schemaAt (outcome : Outcome η ε) (schema : Fields) (p : Pointer) : Fields :=
  (Entries.get? p (((Tree.ofFields schema).tables.map (·.1)).zip
    (outcome.tables.map Descriptor.schema))).getD []

/-- The rewriting that has the schemas of the registered tables. -/
def Outcome.rewriting (outcome : Outcome η ε) (settings : Settings) (schema : Fields) :
    Rewriting where
  settings := settings
  inline := outcome.schemaAt schema

variable {settings : Settings} {schema : Fields} {binder : Binder η ε}

/-- A table is looked up by its pointer. -/
theorem Outcome.schemaAt_eq {outcome : Outcome η ε} (hkeyed : schema.isKeyed = true)
    (hlength : (Tree.ofFields schema).tables.length = outcome.tables.length) {i : Nat}
    {t : Pointer × Tree} {d : Descriptor η} (ht : (Tree.ofFields schema).tables[i]? = some t)
    (hd : outcome.tables[i]? = some d) : outcome.schemaAt schema t.1 = d.schema := by
  have hkeys : Entries.keys (((Tree.ofFields schema).tables.map (·.1)).zip
      (outcome.tables.map Descriptor.schema)) = (Tree.ofFields schema).tables.map (·.1) :=
    List.map_fst_zip (by simp [hlength])
  have hmem : (t.1, d.schema) ∈ ((Tree.ofFields schema).tables.map (·.1)).zip
      (outcome.tables.map Descriptor.schema) := by
    refine List.mem_of_getElem? (i := i) ?_
    simp [List.getElem?_zip_eq_some, ht, hd]
  have hdistinct : Entries.Distinct (((Tree.ofFields schema).tables.map (·.1)).zip
      (outcome.tables.map Descriptor.schema)) := by
    rw [Entries.Distinct, hkeys]
    exact Tree.nodup_pointers hkeyed
  rw [schemaAt, Entries.get?_eq_some_of_mem hdistinct hmem, Option.getD_some]

/-- The tables inside a table have been registered before it, and the rewriting has the schemas
that are put in. -/
theorem Outcome.agrees_rewriting {outcome : Outcome η ε} (hkeyed : schema.isKeyed = true)
    (hlength : (Tree.ofFields schema).tables.length = outcome.tables.length) {i start : Nat}
    {t : Pointer × Tree} (ht : (Tree.ofFields schema).tables[i]? = some t)
    (hstart : start + Tree.countBelow t.2.children = i) :
    (outcome.rewriting settings schema).Agrees
      ((outcome.tables.take i).map Descriptor.schema)
      ((Tree.tablesBelow t.1 t.2.children).zipIdx start) := by
  rintro ⟨u, j⟩ hu
  have hplace : (t, i) ∈ (Tree.ofFields schema).tables.zipIdx := by
    rw [List.mem_zipIdx_iff_getElem?]
    exact ht
  have hu' : (Tree.ofFields schema).tables[j]? = some u := by
    rw [← List.mem_zipIdx_iff_getElem? (x := (u, j))]
    exact Tree.zipIdx_tablesBelow_subset [] _ hplace hstart hu
  have hj : j < i := by
    have hlt := (List.mem_zipIdx hu).2.1
    rw [Tree.length_tablesBelow] at hlt
    omega
  obtain ⟨hlt, -⟩ := List.getElem?_eq_some_iff.mp hu'
  have hd : outcome.tables[j]? = some outcome.tables[j] := List.getElem?_eq_getElem _
  have hget := Outcome.schemaAt_eq hkeyed hlength hu' hd
  change outcome.schemaAt schema u.1 = _
  rw [hget]
  simp [List.getD_eq_getElem?_getD, hj, hd]

/-! ### The table that a node becomes -/

namespace Walk

variable (setting : Setting η ε)

/-- Whether a table, with its place among the tables, is registered as its outline says. -/
def RegistersOutline (t : (Pointer × Tree) × Nat) (r : Pointer × Draft Nat) : Prop :=
  ∃ start, start + Tree.countBelow t.1.2.fields.subtrees = t.2 ∧
    let ctx := some (t.1.2.context setting.settings)
    r.2 = outlineDraft setting ctx t.1.2.fields
      (outlineAll setting ctx start t.1.2.fields.subtrees)

/-- The schema of a table before any column has been asked for. -/
theorem schema_outlineDraft_eq {node : Fields} (hkeyed : node.isKeyed = true) (start : Nat) :
    let ctx := some ((Tree.ofFields node).context setting.settings)
    let results := outlineAll setting ctx start node.subtrees
    (outlineDraft setting ctx node results).schema =
      (keptOf (setting.words : Setting Nat Unit) ctx node results).put propertiesKey
        (.map (ownColumns setting start node)) := by
  intro ctx results
  have hget : (outlineDraft setting ctx node results).schema.get? propertiesKey =
      some (.map (ownColumns setting start node)) := schema_outlineDraft setting hkeyed start
  obtain ⟨columns, hschema⟩ : ∃ columns, (outlineDraft setting ctx node results).schema =
      (keptOf (setting.words : Setting Nat Unit) ctx node results).put propertiesKey
        (.map columns) := ⟨_, rfl⟩
  rw [hschema, Entries.get?_put, if_pos rfl, Option.some.injEq, Fragment.map.injEq] at hget
  rw [hschema, hget]

end Walk

/-- The schema of a registered table when some columns have been asked for. -/
theorem Stage.Built.schema_eq {setting : Walk.Setting η ε} {done : List Act} {handles : List η}
    {d : Draft Nat} {built : Draft η} (h : Stage.Built setting.settings done handles d built)
    {node : Fields} (hname : d.tableName = (node.names setting.settings).tableName) {start : Nat}
    {kept : Entries Scalar Fragment}
    (hschema : d.schema = kept.put propertiesKey (.map (Walk.ownColumns setting start node))) :
    built.schema = kept.put propertiesKey (.map (Walk.columnsAfter setting start node done)) := by
  obtain ⟨earlier, -, rfl⟩ := h
  have hown : (d.withHandles earlier).columns = Walk.ownColumns setting start node := by
    rw [Draft.withHandles_columns, Draft.columns, hschema, Entries.get?_put, if_pos rfl]
    rfl
  have hcolumns : (d.withHandles earlier).schema.get? propertiesKey =
      some (.map (d.withHandles earlier).columns) := by
    rw [hown, Draft.withHandles_schema, hschema, Entries.get?_put, if_pos rfl]
  rw [Draft.schema_withColumns _ _ (Stage.nodup_eraseDups _) hcolumns, hown,
    Draft.withHandles_schema, hschema, Entries.put_put, Draft.missing, hown, hname]
  rfl

/-- **What stands behind a registered table**: a table of the schema, which has been registered as
its outline says and built since then. -/
theorem exists_outlineDraft {setting : Walk.Setting η ε} {root : Fields}
    (hkeyed : root.isKeyed = true) {log : List Event} {s : Stage η}
    (h : (Stage.start log).Performs setting
      (Walk.acts setting none none [] 0 (Tree.ofFields root)) s) {i : Nat} {built : Draft η}
    (hbuilt : s.registry.drafts[i]? = some built) :
    ∃ t start r, (Tree.ofFields root).tables[i]? = some t ∧
      start + Tree.countBelow t.2.fields.subtrees = i ∧
      (Act.registered (Walk.acts setting none none [] 0 (Tree.ofFields root)))[i]? = some r ∧
      Stage.Built setting.settings (Walk.acts setting none none [] 0 (Tree.ofFields root)) s.handles
        r.2 built ∧
      r.2 = Walk.outlineDraft setting (some (t.2.context setting.settings)) t.2.fields
        (Walk.outlineAll setting (some (t.2.context setting.settings)) start
          t.2.fields.subtrees) := by
  have hregisters := Walk.forall₂_registered_acts (R := Walk.RegistersOutline setting)
    (fun _ _ start _ _ => ⟨start, rfl, rfl⟩) hkeyed none none [] 0
  have hreplays := h.replays (Stage.replays_start setting.settings log)
  rw [List.nil_append] at hreplays
  obtain ⟨r, hr, hmade⟩ := exists_getElem?_of_forall₂ hreplays.drafts hbuilt
  obtain ⟨⟨t, i'⟩, ht, start, hstart, hdraft⟩ := exists_getElem?_of_forall₂ hregisters hr
  rw [List.getElem?_zipIdx, Nat.zero_add, Option.map_eq_some_iff] at ht
  obtain ⟨t, ht, heq⟩ := ht
  obtain ⟨rfl, rfl⟩ := Prod.mk.inj heq
  exact ⟨t, start, r, ht, hstart, hr, hmade, hdraft⟩

/-- **The schema of a registered table**, with the schemas put in that are inside it. -/
theorem exists_outlined (hkeyed : schema.isKeyed = true) {s : Stage η}
    (h : (Stage.start (checkLog settings schema)).Performs ⟨settings, binder⟩
      (compileActs binder settings schema) s) {i : Nat} {t : Pointer × Tree}
    (ht : (Tree.ofFields schema).tables[i]? = some t) {d : Descriptor η}
    (hd : s.registry.descriptors[i]? = some d) :
    ∃ start, start + Tree.countBelow t.2.fields.subtrees = i ∧
      let setting : Walk.Setting η ε := ⟨settings, binder⟩
      let ctx := some (t.2.context settings)
      d.schema = Fragment.resolveEntries ((s.registry.descriptors.take i).map Descriptor.schema)
        ((Walk.keptOf (setting.words : Walk.Setting Nat Unit) ctx t.2.fields
          (Walk.outlineAll setting ctx start t.2.fields.subtrees)).put propertiesKey
            (.map (Walk.columnsAfter setting start t.2.fields
              (compileActs binder settings schema)))) := by
  obtain ⟨built, hbuilt, rfl⟩ := Registry.getElem?_descriptors hd
  obtain ⟨t', start, r, ht', hstart, -, hmade, hdraft⟩ := exists_outlineDraft hkeyed h hbuilt
  obtain rfl := Option.some.inj (ht.symm.trans ht')
  obtain ⟨-, hnode⟩ := Tree.ofFields_of_mem_tables hkeyed (List.mem_of_getElem? ht)
  have hschema := Walk.schema_outlineDraft_eq (⟨settings, binder⟩ : Walk.Setting η ε) hnode start
  rw [hdraft] at hmade
  refine ⟨start, hstart, ?_⟩
  exact congrArg (Fragment.resolveEntries _) (hmade.schema_eq rfl hschema)

/-! ### The schemas of an outcome -/

/-- There are as many registered tables as the schema has when a compilation gives a result. -/
theorem length_tables_of_result_eq_ok (hset : settings.IsValid) (hkeyed : schema.isKeyed = true)
    {models : Entries String η}
    (hok : (compile binder settings (.map schema)).result = .ok models) :
    (Tree.ofFields schema).tables.length =
      (compile binder settings (.map schema)).tables.length := by
  obtain ⟨done, s, -, hperforms, htables, hall⟩ := exists_performs binder hset hkeyed
  obtain rfl := hall models hok
  rw [← htables, length_descriptors hperforms, compileActs, Walk.length_registered_acts]
  rfl

/-- Whether an array of tables that does not say how it is joined asks for a foreign key of the
tables of a name. -/
def Fields.AsksForColumn (settings : Settings) (schema : Fields) (table column : String) : Prop :=
  ∃ u ∈ (Tree.ofFields schema).tables, ∃ a ∈ u.2.sites,
    a.child.fields.kind = .arrayOfTable ∧ (a.target.names settings).tableName = table ∧
      settings.override? .joinToColumn a.child.fields = none ∧
        settings.override? .joinThrough a.child.fields = none ∧
          column = ColumnRef.flatten (u.2.fields.idPath settings)

/-- **The schema of a table** is the rewriting of its node, with the foreign keys behind that are
asked for and that it does not have of its own. -/
theorem exists_schema_eq_table (hset : settings.IsValid) (hkeyed : schema.isKeyed = true)
    (hproperties : settings.owns "properties" = false) (hitems : settings.owns "items" = false)
    {models : Entries String η}
    (hok : (compile binder settings (.map schema)).result = .ok models) {i : Nat}
    {t : Pointer × Tree} (ht : (Tree.ofFields schema).tables[i]? = some t) {d : Descriptor η}
    (hd : (compile binder settings (.map schema)).tables[i]? = some d) :
    let w := (compile binder settings (.map schema)).rewriting settings schema
    let leaves := Walk.Setting.leaves ⟨settings, binder⟩
    ∃ foreignKeys : List String, foreignKeys.Nodup ∧
      (∀ column, column ∈ foreignKeys ↔
        .text column ∉ Entries.keys (w.ownColumns t.1 leaves t.2.fields) ∧
          schema.AsksForColumn settings (t.2.fields.names settings).tableName column) ∧
      d.schema = w.table t.1 leaves t.2.fields foreignKeys := by
  intro w leaves
  have hlength := length_tables_of_result_eq_ok hset hkeyed hok
  have hvalid := isValid_of_result_eq_ok binder hok
  obtain ⟨done, s, -, hperforms, htables, hall⟩ := exists_performs binder hset hkeyed
  obtain rfl := hall models hok
  obtain ⟨start, hstart, hschema⟩ := exists_outlined hkeyed hperforms ht (htables ▸ hd)
  obtain ⟨hfields, hnode⟩ := Tree.ofFields_of_mem_tables hkeyed (List.mem_of_getElem? ht)
  have hchildren : t.2.children = t.2.fields.subtrees := by
    rw [hfields, Tree.ofFields_eq_node]
    rfl
  have hagrees : w.Agrees ((s.registry.descriptors.take i).map Descriptor.schema)
      ((Tree.tablesBelow t.1 t.2.fields.subtrees).zipIdx start) := by
    rw [htables, ← hchildren]
    exact Outcome.agrees_rewriting hkeyed hlength ht (by rw [hchildren, hstart])
  generalize (s.registry.descriptors.take i).map Descriptor.schema = schemas at hagrees hschema
  have hrewrites : Walk.Rewrites (⟨settings, binder⟩ : Walk.Setting η ε) w schemas t.2.fields :=
    Walk.rewrites rfl hproperties hitems hnode
  have hown : (Walk.ownColumns ⟨settings, binder⟩ start t.2.fields).mapValues
      (Fragment.resolve schemas) = w.ownColumns t.1 leaves t.2.fields :=
    Walk.resolve_ownColumns rfl hproperties hitems hnode hagrees
  have hkeys : Entries.keys (Walk.ownColumns ⟨settings, binder⟩ start t.2.fields) =
      Entries.keys (w.ownColumns t.1 leaves t.2.fields) := by
    rw [← hown, Entries.keys_mapValues]
  refine ⟨(Act.asked (t.2.fields.names settings).tableName
    (compileActs binder settings schema)).eraseDups.filter fun column =>
      !(Walk.ownColumns ⟨settings, binder⟩ start t.2.fields).has (.text column),
    (Stage.nodup_eraseDups _).filter _, fun column => ?_, ?_⟩
  · rw [List.mem_filter, List.mem_eraseDups, mem_asked_compileActs_iff hkeyed hvalid, ← hkeys,
      Bool.not_eq_true', Bool.eq_false_iff, Ne, Entries.has_iff, and_comm]
    rfl
  · rw [hschema, Fragment.resolveEntries_eq_mapValues, Entries.mapValues_put,
      ← Fragment.resolveEntries_eq_mapValues, hrewrites _ _ _ hagrees, Fragment.resolve,
      Fragment.resolveEntries_eq_mapValues, Walk.columnsAfter, Entries.mapValues_append, hown]
    -- a foreign key is there as it is
    simp only [Rewriting.table, Draft.foreignKeys, Entries.mapValues, List.map_map,
      Function.comp_def, Fragment.resolve]
    rfl

/-- Whether a descriptor has the schema of its table: what the rewriting makes of the node, with
the foreign keys behind that are asked for and that the table does not have of its own; and in
every node inside the table the columns are what the properties become, one after the other. -/
structure Rewriting.Gives (w : Rewriting) (leaves : Scalar → Bool) (schema : Fields)
    (t : Pointer × Tree) (d : Descriptor η) : Prop where
  schema : ∃ foreignKeys : List String, foreignKeys.Nodup ∧
    (∀ column, column ∈ foreignKeys ↔
      .text column ∉ Entries.keys (w.ownColumns t.1 leaves t.2.fields) ∧
        schema.AsksForColumn w.settings (t.2.fields.names w.settings).tableName column) ∧
    d.schema = w.table t.1 leaves t.2.fields foreignKeys
  inOrder : ∀ n ∈ t.2.region, ∀ properties, n.2.fields.mapping? "properties" = some properties →
    Entries.ofPairs (w.columns (t.1 ++ Pointer.ofWay n.1) properties) =
      w.columns (t.1 ++ Pointer.ofWay n.1) properties

/-- **The schemas of a compiled schema** are the rewritings of its tables, if no node inside a
table has a property with the name of a foreign key that one of its tables leaves. -/
theorem compile_schemas (hset : settings.IsValid) (hkeyed : schema.isKeyed = true)
    (hproperties : settings.owns "properties" = false) (hitems : settings.owns "items" = false)
    (hfree : ∀ t ∈ (Tree.ofFields schema).tables, ∀ n ∈ t.2.region, n.2.fields.StubsFree)
    (binder : Binder η ε) {models : Entries String η}
    (hok : (compile binder settings (.map schema)).result = .ok models) :
    let outcome := compile binder settings (.map schema)
    List.Forall₂
      ((outcome.rewriting settings schema).Gives (Walk.Setting.leaves ⟨settings, binder⟩) schema)
      (Tree.ofFields schema).tables outcome.tables := by
  intro outcome
  refine forall₂_of_getElem? (length_tables_of_result_eq_ok hset hkeyed hok) ?_
  intro i t d ht hd
  refine ⟨exists_schema_eq_table hset hkeyed hproperties hitems hok ht hd, ?_⟩
  intro n hn properties hmap
  have hmem := List.mem_of_getElem? ht
  obtain ⟨htree, hnode⟩ := Tree.ofFields_of_mem_tables hkeyed hmem
  have hregion := hn
  rw [htree] at hregion
  exact Entries.ofPairs_eq_self (Rewriting.distinct_columns
    (Tree.ofFields_of_mem_region hnode hregion).2 (hfree _ hmem n hn) hmap)

/-- An invoice with a customer, a country inside an embedded address, an array of lines, and
lists of lists of tags. -/
def invoiceSchema : Fields :=
  [(.text "$id", .text "invoice"), (.text "x-relschema-id-column", .text "number"),
    (.text "properties", .object
      [("customer", .object [("$id", .text "customer")]),
        ("address", .object
          [("properties", .object
            [("country", .object [("$id", .text "country")]),
              ("street", .object [("type", .text "string"), ("x-relschema-note", .text "-")])])]),
        ("lines", .object
          [("type", .text "array"), ("items", .object [("$id", .text "line")])]),
        ("tags", .object
          [("type", .text "array"),
            ("items", .object
              [("type", .text "array"), ("items", .object [("$id", .text "tag")])])])]),
    (.text "description", .text "what is to be paid")]

example : ((compile (Binder.counting : Binder Nat Empty) {} (.map invoiceSchema)).tables[4]?).map
    Descriptor.schema = some
      [(.text "$id", .text "invoice"),
        (.text "properties", .object
          [("customer_id", .object [("type", .text "integer")]),
            ("address", .object
              [("properties", .object
                [("country_id", .object [("type", .text "integer")]),
                  ("street", .object [("type", .text "string")])])]),
            ("tags", .object
              [("type", .text "array"),
                ("items", .object
                  [("type", .text "array"),
                    ("items", .object [("$id", .text "tag"), ("properties", .object [])])])])]),
        (.text "description", .text "what is to be paid")] := by
  rfl

/-- The schemas of the invoice and of the tables inside it. -/
theorem compile_schemas_invoice :
    ({} : Settings).IsValid ∧ invoiceSchema.isKeyed = true ∧
      ({} : Settings).owns "properties" = false ∧ ({} : Settings).owns "items" = false ∧
      (∀ t ∈ (Tree.ofFields invoiceSchema).tables, ∀ n ∈ t.2.region, n.2.fields.StubsFree) ∧
      (compile (Binder.counting : Binder Nat Empty) {} (.map invoiceSchema)).result =
        .ok [("customer", 0), ("country", 1), ("line", 2), ("tag", 3), ("invoice", 4)] ∧
      List.Forall₂
        (((compile (Binder.counting : Binder Nat Empty) {} (.map invoiceSchema)).rewriting {}
          invoiceSchema).Gives
            (Walk.Setting.leaves ⟨{}, (Binder.counting : Binder Nat Empty)⟩) invoiceSchema)
        (Tree.ofFields invoiceSchema).tables
        (compile (Binder.counting : Binder Nat Empty) {} (.map invoiceSchema)).tables := by
  have hkeyed : invoiceSchema.isKeyed = true := by decide
  have hproperties : ({} : Settings).owns "properties" = false := by decide
  have hitems : ({} : Settings).owns "items" = false := by decide
  have hfree : ∀ t ∈ (Tree.ofFields invoiceSchema).tables, ∀ n ∈ t.2.region,
      n.2.fields.StubsFree := by decide
  have hok : (compile (Binder.counting : Binder Nat Empty) {} (.map invoiceSchema)).result =
      .ok [("customer", 0), ("country", 1), ("line", 2), ("tag", 3), ("invoice", 4)] := by
    rfl
  exact ⟨Settings.isValid_default, hkeyed, hproperties, hitems, hfree, hok,
    compile_schemas Settings.isValid_default hkeyed hproperties hitems hfree Binder.counting hok⟩

end NestedTables
