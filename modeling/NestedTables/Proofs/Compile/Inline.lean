import NestedTables.Proofs.Compile.PropertyOrder
import NestedTables.Proofs.Schema.Pointer

/-!
# Tables that stay inside others

A table that is reached through items stays where it is if it becomes no relation: as the items of
an array that is the item of another one, or as the items of a table. It is then seen twice, by its
own descriptor and inside the schema of the table around it, and it may be given foreign keys after
the table around it has been registered. Both show the same schema (`compile_inline`).

This needs that all that is around it stays as well. A property that is an array of tables becomes a
relation, and leaves its table with everything that is written in it, also with what is under
properties of its own. A table in there has a descriptor, and is seen nowhere else
(`compile_inline_lost`).
-/

namespace NestedTables

variable {η ε : Type}

namespace Fields

/-- Whether no property on a way is an array of tables. -/
def Stays (node : Fields) (way : List Step) : Prop :=
  ∀ mid k, mid ++ [.property k] <+: way → ∀ sub, node.down? (mid ++ [.property k]) = some sub →
    sub.kind ≠ .arrayOfTable

variable {node sub : Fields} {step : Step} {way : List Step}

theorem stays_nil (node : Fields) : node.Stays [] := by
  intro mid k hmid
  simp at hmid

theorem stays_cons (hsub : Entries.get? step node.children = some sub) :
    node.Stays (step :: way) ↔
      (∀ k, step = .property k → sub.kind ≠ .arrayOfTable) ∧ sub.Stays way := by
  have hdown : ∀ mid, node.down? (step :: mid) = sub.down? mid := by
    intro mid
    rw [down?_cons, hsub, Option.bind_some]
  constructor
  · refine fun h => ⟨?_, fun mid k hmid n hn => ?_⟩
    · rintro k rfl
      exact h [] k ⟨way, rfl⟩ sub (hdown [])
    · exact h (step :: mid) k ((List.prefix_cons_inj step).mpr hmid) n ((hdown _).trans hn)
  · rintro ⟨hfirst, hrest⟩ mid k hmid n hn
    cases mid with
    | nil =>
      obtain ⟨rfl, -⟩ := List.cons_prefix_cons.mp hmid
      exact Option.some.inj ((hdown []).symm.trans hn) ▸ hfirst k rfl
    | cons step' mid =>
      obtain ⟨rfl, hinit⟩ := List.cons_prefix_cons.mp hmid
      exact hrest mid k hinit n ((hdown _).symm.trans hn)

/-- The items of items are not reached. -/
theorem not_isReached_items {schema : Fields} {v : List Step} :
    ¬ schema.IsReached (v ++ [.items, .items]) := by
  rintro (⟨v', k, h⟩ | ⟨v', k, -, h, -, -⟩)
  · have hend := congrArg List.getLast? h
    simp at hend
  · simpa using (List.append_inj' h rfl).2

/-- What is reached through items and becomes no relation stays if what is around it does. -/
theorem stays_of_not_isReached {schema : Fields} {u : List Step}
    (hdown : schema.down? u = some node) (hclear : node.Clear way)
    (hno : ¬ schema.IsReached (u ++ way ++ [.items])) (hstays : node.Stays way.dropLast) :
    node.Stays way := by
  intro mid k hmid sub hsub
  by_cases hlast : mid ++ [.property k] = way
  · -- the items of a property that is no table are reached
    refine absurd (Or.inr ⟨u ++ mid, k, sub, ?_, ?_, hclear _ (by simp) hmid sub hsub⟩) hno
    · simp [← hlast]
    · rw [List.append_assoc, down?_append, hdown]
      exact hsub
  · refine hstays mid k ?_ sub hsub
    obtain ⟨rest, rfl⟩ := hmid
    rcases rest.eq_nil_or_concat with rfl | ⟨rest, step, rfl⟩
    · exact absurd (List.append_nil _).symm hlast
    · rw [List.concat_eq_append, ← List.append_assoc, List.dropLast_concat]
      exact List.prefix_append _ _

end Fields

namespace Walk

variable {setting : Setting η ε} {w : Rewriting} {schemas : List Fields} {node sub : Fields}

/-! ### A step into what a node becomes -/

theorem get?_items_keptOf {ctx : Option Context} {results : Entries Step (Visit η)}
    {result : Visit η} (h : results.get? .items = some result) :
    (keptOf setting ctx node results).get? (.text "items") = some result.schema := by
  rw [keptOf, h, Entries.get?_put, if_pos rfl]

variable (setting) in
theorem get?_properties_keptOf (ctx : Option Context) (results : Entries Step (Visit η))
    {properties : Fields} (h : node.mapping? "properties" = some properties) :
    (keptOf setting ctx node results).get? propertiesKey =
      some (.map (columnsOf setting ctx results properties)) := by
  have hentries := entries?_keptOf setting ctx node results
  rw [h, Option.map_some, Option.bind_eq_some_iff] at hentries
  obtain ⟨f, hf, hcolumns⟩ := hentries
  cases f with
  | map es => rw [hf, Option.some.inj hcolumns]
  | _ => simp [Fragment.entries?] at hcolumns

theorem at?_items (kept : Entries Scalar Fragment) :
    (Value.map (Fragment.resolveEntries schemas kept)).at? Step.items.path =
      (kept.get? (.text "items")).map (Fragment.resolve schemas) := by
  rw [Fragment.resolveEntries_eq_mapValues, Step.path, Value.at?, Entries.get?_mapValues]
  simp

theorem at?_property {kept columns : Entries Scalar Fragment}
    (h : kept.get? propertiesKey = some (.map columns)) (k : Scalar) :
    (Value.map (Fragment.resolveEntries schemas kept)).at? (Step.property k).path =
      Entries.get? k (columns.mapValues (Fragment.resolve schemas)) := by
  have hpath : (Step.property k).path = [propertiesKey, k] := rfl
  rw [Fragment.resolveEntries_eq_mapValues, hpath, Value.at?, Entries.get?_mapValues, h,
    Option.map_some, Option.bind_some, Fragment.resolve, Fragment.resolveEntries_eq_mapValues,
    Value.at?]
  simp

section Step

variable (hkeyed : node.isKeyed = true) (hfree : node.StubsFree) (owner : Context) (start : Nat)
include hkeyed hfree

variable (setting schemas) in
/-- The column of a property that is neither a table nor an array of tables. -/
theorem get?_columnsOf {k : Scalar} {properties : Fields}
    (hproperties : node.mapping? "properties" = some properties)
    (hmem : (k, .map sub) ∈ properties) (htable : sub.kind ≠ .table)
    (harray : sub.kind ≠ .arrayOfTable) :
    let results := outlineAll setting (some owner) start node.subtrees
    Entries.get? k ((columnsOf (setting.words : Setting Nat Unit) (some owner) results
      properties).mapValues (Fragment.resolve schemas)) =
        some (valueIn schemas results (k, .map sub)) := by
  intro results
  rw [mapValues_columnsOf hkeyed hproperties owner start hfree]
  refine Entries.get?_eq_some_of_mem
    (distinct_flatMap_columnOf hkeyed hproperties hfree _) ?_
  refine List.mem_flatMap.mpr ⟨_, hmem, ?_⟩
  have hkind : Value.nodeKind (.map sub) = sub.kind := rfl
  rw [columnOf, hkind]
  cases hsub : sub.kind with
  | table => exact absurd hsub htable
  | arrayOfTable => exact absurd hsub harray
  | embedded | arrayOfEmbedded | scalar => exact List.mem_singleton.mpr rfl

/-- **A child that stays** is found in what its node becomes. -/
theorem at?_keptOf {step : Step} (hc : (step, sub) ∈ node.children)
    (hstays : ∀ k, step = .property k → sub.kind ≠ .table ∧ sub.kind ≠ .arrayOfTable) :
    let results := outlineAll setting (some owner) start node.subtrees
    (Value.map (Fragment.resolveEntries schemas
      (keptOf (setting.words : Setting Nat Unit) (some owner) node results))).at? step.path =
        (results.get? step).map fun result => result.schema.resolve schemas := by
  intro results
  obtain ⟨start', hget, -⟩ := get?_outlineAll setting (Fields.nodup_steps hkeyed) hc
    (some owner) start
  have hget' : results.get? step = some _ := hget
  cases step with
  | items => rw [at?_items, get?_items_keptOf hget', hget', Option.map_some, Option.map_some]
  | property k =>
    obtain ⟨properties, hproperties, hmem⟩ := Fields.property_mem_children_iff.mp hc
    obtain ⟨htable, harray⟩ := hstays k rfl
    rw [at?_property (get?_properties_keptOf _ _ _ hproperties),
      get?_columnsOf setting _ hkeyed hfree owner start hproperties hmem htable harray, valueIn,
      hget', Option.map_some, Option.getD_some]

end Step

/-! ### A way into what a node becomes -/

variable (setting) in
/-- **What is at the end of a way that stays**: a table is there with the schema that it has
itself. -/
theorem at?_keptOf_way {way : List Step} {c : Fields} (hkeyed : node.isKeyed = true)
    (hfree : ∀ n, node.Walked n → n.StubsFree) (owner : Context) {start : Nat} {at_ : Pointer}
    (hagrees : w.Agrees schemas ((Tree.tablesBelow at_ node.subtrees).zipIdx start))
    (hdown : node.down? (way ++ [.items]) = some c) (htable : c.isTable = true)
    (hclear : node.Clear way) (hstays : node.Stays way) :
    (Value.map (Fragment.resolveEntries schemas
      (keptOf (setting.words : Setting Nat Unit) (some owner) node
        (outlineAll setting (some owner) start node.subtrees)))).at?
          (Pointer.ofWay (way ++ [.items])) =
      some (.map (w.inline (at_ ++ Pointer.ofWay (way ++ [.items])))) := by
  induction way generalizing node owner start at_ with
  | nil =>
    obtain ⟨sub, hsub, hdown⟩ := Option.bind_eq_some_iff.mp hdown
    obtain rfl := Option.some.inj hdown
    have hc := Entries.mem_of_get?_eq_some hsub
    obtain ⟨start', hget, hplaced⟩ := get?_outlineAll setting (Fields.nodup_steps hkeyed) hc
      (some owner) start
    rw [List.nil_append, Pointer.ofWay_singleton,
      at?_keptOf hkeyed (hfree node (.self node)) owner start hc (by simp), Fields.subtrees, hget,
      Option.map_some, resolve_outline_of_isTable htable _ _ (hagrees.mono (hplaced at_))]
  | cons step way ih =>
    obtain ⟨sub, hsub, hdown⟩ := Option.bind_eq_some_iff.mp hdown
    have hc := Entries.mem_of_get?_eq_some hsub
    obtain ⟨hsubTable, hsubClear⟩ := (Fields.clear_cons hsub).mp hclear
    obtain ⟨harray, hsubStays⟩ := (Fields.stays_cons hsub).mp hstays
    obtain ⟨start', hget, hplaced⟩ := get?_outlineAll setting (Fields.nodup_steps hkeyed) hc
      (some owner) start
    have hctx : contextIn setting.settings (some owner) (some step) sub =
        some (owner.child step.key.plain) := by
      simp [contextIn, hsubTable]
    have hstep : ∀ k, step = .property k → sub.kind ≠ .table ∧ sub.kind ≠ .arrayOfTable :=
      fun k hk => ⟨by simp [Fields.kind_eq_table_iff, hsubTable], harray k hk⟩
    have hbelow : w.Agrees schemas
        ((Tree.tablesBelow (at_ ++ step.path) sub.subtrees).zipIdx start') :=
      (hagrees.mono (hplaced at_)).mono (Tree.zipIdx_tablesBelow_subset_tablesFrom sub _ start')
    have hwalked : ∀ n, sub.Walked n → n.StubsFree := fun n hn => hfree n (hn.of_child hc)
    rw [List.cons_append, Pointer.ofWay_cons, Value.at?_append,
      at?_keptOf hkeyed (hfree node (.self node)) owner start hc hstep, Fields.subtrees, hget,
      Option.map_some, Option.bind_some, outline_ofFields, handUp, if_neg (by simp [hsubTable]),
      hctx, Fragment.resolve, ← List.append_assoc]
    exact ih (Fields.isKeyed_of_mem_children hkeyed hc) hwalked _ hbelow hdown hsubClear hsubStays

/-! ### The table around -/

/-- **A child of a table that stays** is found in the schema of the table as in what its node
becomes: behind its columns the table only gets foreign keys. -/
theorem at?_columnsAfter (hkeyed : node.isKeyed = true) (hfree : node.StubsFree) (start : Nat)
    (acts : List Act) {step : Step} (hc : (step, sub) ∈ node.children)
    (hstays : ∀ k, step = .property k →
      sub.kind ≠ .table ∧ sub.kind ≠ .arrayOfTable ∧ setting.leaves k = true) :
    let ctx := some ((Tree.ofFields node).context setting.settings)
    let kept := keptOf (setting.words : Setting Nat Unit) ctx node
      (outlineAll setting ctx start node.subtrees)
    (Value.map (Fragment.resolveEntries schemas (kept.put propertiesKey
        (.map (columnsAfter setting start node acts))))).at? step.path =
      (Value.map (Fragment.resolveEntries schemas kept)).at? step.path := by
  intro ctx kept
  cases step with
  | items =>
    have hne : propertiesKey ≠ .text "items" := by decide
    rw [at?_items, at?_items, Entries.get?_put, if_neg hne]
  | property k =>
    obtain ⟨properties, hproperties, hmem⟩ := Fields.property_mem_children_iff.mp hc
    obtain ⟨htable, harray, hleaves⟩ := hstays k rfl
    have hown : ownColumns setting start node =
        (columnsOf (setting.words : Setting Nat Unit) ctx
          (outlineAll setting ctx start node.subtrees) properties).filter
            fun e => setting.leaves e.1 := by
      rw [columnsOf_eq_foldl setting hkeyed hproperties, ownColumns, hproperties]
      rfl
    have hput : (kept.put propertiesKey (.map (columnsAfter setting start node acts))).get?
        propertiesKey = some (.map (columnsAfter setting start node acts)) := by
      rw [Entries.get?_put, if_pos rfl]
    have hcolumn := get?_columnsOf setting schemas hkeyed hfree
      ((Tree.ofFields node).context setting.settings) start hproperties hmem htable harray
    rw [at?_property hput, at?_property (get?_properties_keptOf _ _ _ hproperties), hcolumn,
      columnsAfter, Entries.mapValues_append, Entries.get?_append, hown, Entries.mapValues_filter,
      Entries.get?_filter _ hleaves, hcolumn, Option.some_or]

variable (setting) in
/-- **What a table has at the end of a way that stays**: a table is there with the schema that it
has itself. -/
theorem at?_columnsAfter_way {way : List Step} {c : Fields} (hkeyed : node.isKeyed = true)
    (hfree : ∀ n, node.Walked n → n.StubsFree) {start : Nat} (acts : List Act) {at_ : Pointer}
    (hagrees : w.Agrees schemas ((Tree.tablesBelow at_ node.subtrees).zipIdx start))
    (hdown : node.down? (way ++ [.items]) = some c) (htable : c.isTable = true)
    (hclear : node.Clear way) (hstays : node.Stays way)
    (hleaves : ∀ k rest, way = .property k :: rest → setting.leaves k = true) :
    let ctx := some ((Tree.ofFields node).context setting.settings)
    (Value.map (Fragment.resolveEntries schemas
      ((keptOf (setting.words : Setting Nat Unit) ctx node
        (outlineAll setting ctx start node.subtrees)).put propertiesKey
          (.map (columnsAfter setting start node acts))))).at? (Pointer.ofWay (way ++ [.items])) =
      some (.map (w.inline (at_ ++ Pointer.ofWay (way ++ [.items])))) := by
  intro ctx
  rw [← at?_keptOf_way setting hkeyed hfree
    ((Tree.ofFields node).context setting.settings) hagrees hdown htable hclear hstays]
  cases way with
  | nil =>
    obtain ⟨sub, hsub, -⟩ := Option.bind_eq_some_iff.mp hdown
    rw [List.nil_append, Pointer.ofWay_singleton]
    exact at?_columnsAfter hkeyed (hfree node (.self node)) start acts
      (Entries.mem_of_get?_eq_some hsub) (by simp)
  | cons step way =>
    obtain ⟨sub, hsub, -⟩ := Option.bind_eq_some_iff.mp hdown
    obtain ⟨hsubTable, -⟩ := (Fields.clear_cons hsub).mp hclear
    obtain ⟨harray, -⟩ := (Fields.stays_cons hsub).mp hstays
    have hstep : ∀ k, step = .property k →
        sub.kind ≠ .table ∧ sub.kind ≠ .arrayOfTable ∧ setting.leaves k = true := fun k hk =>
      ⟨by simp [Fields.kind_eq_table_iff, hsubTable], harray k hk, hleaves k way (by rw [hk])⟩
    rw [List.cons_append, Pointer.ofWay_cons, Value.at?_append, Value.at?_append,
      at?_columnsAfter hkeyed (hfree node (.self node)) start acts
        (Entries.mem_of_get?_eq_some hsub) hstep]

end Walk

variable {settings : Settings} {schema : Fields}

/-- There is one descriptor of the table with a pointer. -/
theorem Outcome.TableAt.unique {outcome : Outcome η ε} (hkeyed : schema.isKeyed = true)
    {p : Pointer} {d d' : Descriptor η} (h : outcome.TableAt schema p d)
    (h' : outcome.TableAt schema p d') : d = d' := by
  obtain ⟨i, t, ht, rfl, hd⟩ := h
  obtain ⟨j, t', ht', hpointer, hd'⟩ := h'
  have hi : ((Tree.ofFields schema).tables.map (·.1))[i]? = some t.1 := by simp [ht]
  have hj : ((Tree.ofFields schema).tables.map (·.1))[j]? = some t.1 := by simp [ht', hpointer]
  obtain rfl : i = j := by
    obtain ⟨hlt, -⟩ := List.getElem?_eq_some_iff.mp hi
    exact (List.getElem?_inj hlt (Tree.nodup_pointers hkeyed)).mp (hi.trans hj.symm)
  exact Option.some.inj (hd.symm.trans hd')

/-- **A table that stays inside another one is in step with its descriptor.** Let a table be reached
through items and become no relation, in a schema that compiles and in which no node has a property
with the name of a foreign key that one of its tables leaves. If no property on the way from the
table around it becomes a relation, and the first one is not kept by the binder, then the schema of
the table around it has at the end of the way the schema of the table. -/
theorem compile_inline (binder : Binder η ε) (hset : settings.IsValid)
    (hkeyed : schema.isKeyed = true) (hfree : ∀ n, schema.Walked n → n.StubsFree)
    {models : Entries String η}
    (hok : (compile binder settings (.map schema)).result = .ok models)
    {u between : List Step} {table c : Fields} (hdown : schema.down? u = some table)
    (htable : table.isTable = true) (hclear : table.Clear between)
    (hc : schema.down? (u ++ between ++ [.items]) = some c) (hcTable : c.isTable = true)
    (hno : ¬ schema.IsReached (u ++ between ++ [.items]))
    (hleaves : ∀ k rest, between = .property k :: rest →
      Walk.Setting.leaves ⟨settings, binder⟩ k = true)
    (hstays : table.Stays between.dropLast) :
    let outcome := compile binder settings (.map schema)
    ∃ d dc, outcome.TableAt schema (Pointer.ofWay u) d ∧
      outcome.TableAt schema (Pointer.ofWay (u ++ between ++ [.items])) dc ∧
      (Value.map d.schema).at? (Pointer.ofWay (between ++ [.items])) = some (.map dc.schema) := by
  intro outcome
  have hlength := length_tables_of_result_eq_ok hset hkeyed hok
  obtain ⟨done, s, -, hperforms, htables, hall⟩ := exists_performs binder hset hkeyed
  obtain rfl := hall models hok
  -- the two tables have been registered
  have hat : ∀ (way : List Step) (n : Fields), schema.down? way = some n → n.isTable = true →
      ∃ (i : Nat) (d : Descriptor η), (Tree.ofFields schema).tables[i]? =
        some (Pointer.ofWay way, Tree.ofFields n) ∧ outcome.tables[i]? = some d := by
    intro way n hn hnTable
    obtain ⟨i, hi⟩ := List.getElem?_of_mem
      ((Tree.mem_tables_iff_down? hkeyed).mpr ⟨way, n, hn, hnTable, rfl⟩)
    obtain ⟨hlt, -⟩ := List.getElem?_eq_some_iff.mp hi
    exact ⟨i, _, hi, List.getElem?_eq_getElem (hlength ▸ hlt)⟩
  obtain ⟨i, d, hi, hd⟩ := hat u table hdown htable
  obtain ⟨j, dc, hj, hdc⟩ := hat _ c hc hcTable
  refine ⟨d, dc, ⟨i, _, hi, rfl, hd⟩, ⟨j, _, hj, rfl, hdc⟩, ?_⟩
  obtain ⟨start, hstart, hschema⟩ := exists_outlined hkeyed hperforms hi (htables ▸ hd)
  rw [htables] at hschema
  have hchildren : (Tree.ofFields table).children = table.subtrees := by
    rw [Tree.ofFields_eq_node]
    rfl
  have hagrees : (outcome.rewriting settings schema).Agrees
      ((outcome.tables.take i).map Descriptor.schema)
      ((Tree.tablesBelow (Pointer.ofWay u) table.subtrees).zipIdx start) :=
    hchildren ▸ Outcome.agrees_rewriting hkeyed hlength hi (by rw [hchildren]; exact hstart)
  have hinside : table.down? (between ++ [.items]) = some c := by
    rwa [List.append_assoc, Fields.down?_append, hdown] at hc
  have hwalked := (Fields.walked_iff_down? hkeyed).mpr ⟨u, hdown⟩
  have hway := Walk.at?_columnsAfter_way ⟨settings, binder⟩
    (Fields.isKeyed_of_down? hkeyed hdown) (fun n hn => hfree n (hwalked.trans hn))
    (compileActs binder settings schema) hagrees hinside hcTable hclear
    (Fields.stays_of_not_isReached hdown hclear hno hstays) hleaves
  have hinline : (outcome.rewriting settings schema).inline
      (Pointer.ofWay u ++ Pointer.ofWay (between ++ [.items])) = dc.schema := by
    rw [← Pointer.ofWay_append, ← List.append_assoc]
    exact Outcome.schemaAt_eq hkeyed hlength hj hdc
  rw [hschema, ← hinline]
  exact hway

/-- A board with cells in its rows, and a game that is given cells of its own. -/
def boardSchema : Fields :=
  [(.text "properties", .object
    [("board", .object [("$id", .text "board"), ("properties", .object
      [("rows", .object [("items", .object [("items", .object [("$id", .text "cell")])])])])]),
    ("game", .object [("$id", .text "game"), ("properties", .object
      [("cells", .object [("items", .object [("$id", .text "cell")])])])])])]

/-- The cells of the board are asked for a foreign key after the board has been registered, and the
board shows it. -/
theorem compile_inline_board :
    let outcome := compile (Binder.counting : Binder Nat Empty) {} (.map boardSchema)
    let u : List Step := [.property (.text "board")]
    let between : List Step := [.property (.text "rows"), .items]
    outcome.result = .ok [("cell", 2), ("board", 1), ("game", 3)] ∧
    ∃ d dc, outcome.TableAt boardSchema (Pointer.ofWay u) d ∧
      outcome.TableAt boardSchema (Pointer.ofWay (u ++ between ++ [.items])) dc ∧
      (Value.map d.schema).at? (Pointer.ofWay (between ++ [.items])) = some (.map dc.schema) := by
  have hkeyed : boardSchema.isKeyed = true := by decide
  have hnodes : ∀ n ∈ boardSchema.nodes, n.2.StubsFree := by decide
  have hok : (compile (Binder.counting : Binder Nat Empty) {} (.map boardSchema)).result =
      .ok [("cell", 2), ("board", 1), ("game", 3)] := by
    rfl
  have hfree : ∀ n, boardSchema.Walked n → n.StubsFree := by
    rintro n ⟨p, hp⟩
    exact hnodes _ hp
  intro outcome u between
  have hno : ¬ boardSchema.IsReached (u ++ between ++ [.items]) :=
    Fields.not_isReached_items (v := [.property (.text "board"), .property (.text "rows")])
  refine ⟨hok, compile_inline Binder.counting Settings.isValid_default hkeyed hfree hok rfl
    (by decide) ?_ rfl (by decide) hno ?_ ?_⟩
  · exact (Fields.clear_cons rfl).mpr ⟨by decide, (Fields.clear_cons rfl).mpr
      ⟨by decide, Fields.clear_nil _⟩⟩
  · intro k _ _
    cases k <;> rfl
  · exact (Fields.stays_cons rfl).mpr ⟨fun _ _ => by decide, Fields.stays_nil _⟩

/-- A shop with shelves, whose spare parts are listed beside the shelves themselves. -/
def shelvedSchema : Fields :=
  [(.text "$id", .text "shop"), (.text "properties", .object
    [("shelves", .object [("type", .text "array"), ("items", .object [("$id", .text "shelf")]),
      ("properties", .object [("spares", .object [("items", .object
        [("items", .object [("$id", .text "part")])])])])])])]

/-- **A table is lost with the array around it**: the shop shows nothing of the parts, which are
beside its shelves. -/
theorem compile_inline_lost :
    let outcome := compile (Binder.counting : Binder Nat Empty) {} (.map shelvedSchema)
    let between : List Step := [.property (.text "shelves"), .property (.text "spares"), .items]
    ({} : Settings).IsValid ∧ shelvedSchema.isKeyed = true ∧
      (∀ n, shelvedSchema.Walked n → n.StubsFree) ∧
      outcome.result = .ok [("part", 0), ("shelf", 1), ("shop", 2)] ∧
      shelvedSchema.isTable = true ∧ shelvedSchema.Clear between ∧
      (shelvedSchema.down? (between ++ [.items])).map Fields.isTable = some true ∧
      ¬ shelvedSchema.IsReached (between ++ [.items]) ∧
      (∀ k, Walk.Setting.leaves ⟨{}, (Binder.counting : Binder Nat Empty)⟩ k = true) ∧
      ¬ ∃ d dc, outcome.TableAt shelvedSchema (Pointer.ofWay []) d ∧
        outcome.TableAt shelvedSchema (Pointer.ofWay (between ++ [.items])) dc ∧
        (Value.map d.schema).at? (Pointer.ofWay (between ++ [.items])) = some (.map dc.schema) := by
  intro outcome between
  have hkeyed : shelvedSchema.isKeyed = true := by decide
  have hnodes : ∀ n ∈ shelvedSchema.nodes, n.2.StubsFree := by decide
  have hno : ¬ shelvedSchema.IsReached (between ++ [.items]) :=
    Fields.not_isReached_items (v := [.property (.text "shelves"), .property (.text "spares")])
  refine ⟨Settings.isValid_default, hkeyed, ?_, rfl, by decide, ?_, by decide, hno, ?_, ?_⟩
  · rintro n ⟨p, hp⟩
    exact hnodes _ hp
  · exact (Fields.clear_cons rfl).mpr ⟨by decide, (Fields.clear_cons rfl).mpr ⟨by decide,
      (Fields.clear_cons rfl).mpr ⟨by decide, Fields.clear_nil _⟩⟩⟩
  · intro k
    cases k <;> rfl
  · rintro ⟨d, dc, hd, -, hat⟩
    obtain ⟨shop, hshop, hschema⟩ : ∃ shop, outcome.tables[2]? = some shop ∧
        shop.schema = [(.text "$id", .text "shop"), (.text "properties", .map [])] := ⟨_, rfl, rfl⟩
    obtain rfl := Outcome.TableAt.unique hkeyed hd ⟨2, _, rfl, rfl, hshop⟩
    rw [hschema] at hat
    simp [between, Pointer.ofWay, Step.path, Value.at?] at hat

end NestedTables
