import NestedTables.Proofs.Compile.Bare
import NestedTables.Proofs.Compile.DeclaredColumns
import NestedTables.Proofs.Compile.SharedColumns
import NestedTables.Proofs.Override.Renamed

/-!
# Compiling what has been compiled

The schema of a registered table can be compiled again. If no table has stayed inside it, the
compiler takes it for one table without relations and leaves it as it is (`compile_again`).

This is shown in two halves. A registered schema is bare, whatever it comes from (`bare_schema`).
And a bare schema whose root is a table, and the only one, is left alone: there is no override key to
be left out, no property to be put in the place of a table and nothing to be asked for from elsewhere
(`Rewriting.table_eq_self`, `compile_lone`).
-/

namespace NestedTables

variable {η ε : Type} {settings : Settings}

/-! ### Lone tables -/

/-- The tables inside a tree are tables. -/
theorem Tree.isTable_of_mem_tablesFrom {at_ : Pointer} {tree : Tree} {u : Pointer × Tree}
    (hu : u ∈ Tree.tablesFrom at_ tree) : u.2.fields.isTable = true :=
  (List.mem_filter.mp ((Tree.map_tablesFrom_perm at_ tree).mem_iff.mp
    (List.mem_map.mpr ⟨u, hu, rfl⟩))).2

namespace Fields

variable {node : Fields}

/-- Whether no node that is visited from a node is a table. -/
def TableFree (node : Fields) : Prop :=
  ∀ n, node.Walked n → n.isTable = false

theorem TableFree.of_mem_children (h : node.TableFree) {c : Step × Fields}
    (hc : c ∈ node.children) : c.2.TableFree :=
  fun n hn => h n (hn.of_child hc)

theorem TableFree.kind_ne (h : node.TableFree) :
    node.kind ≠ .table ∧ node.kind ≠ .arrayOfTable := by
  refine ⟨fun hkind => ?_, fun hkind => ?_⟩
  · exact absurd (kind_eq_table_iff.mp hkind) (by simp [h node (.self node)])
  · obtain ⟨-, items, hitems, htable⟩ := exists_items_of_kind hkind
    have hc := items_mem_children_iff.mpr hitems
    exact absurd htable (by simp [h.of_mem_children hc items (.self items)])

/-- Whether a node is a table, and no node that is visited below it is one. -/
structure IsLone (node : Fields) : Prop where
  isTable : node.isTable = true
  below : ∀ c ∈ node.children, c.2.TableFree

/-- A table is a lone one if no other visited table has a pointer that goes on from it. -/
theorem isLone_of_nodes (htable : node.isTable = true)
    (h : ∀ n ∈ node.nodes, n.2.isTable = true → n.1 = []) : node.IsLone := by
  refine ⟨htable, fun c hc n ⟨p, hp⟩ => ?_⟩
  have hmem : (c.1.path ++ p, n) ∈ node.nodes := by
    rw [nodes_eq_flatMap]
    exact List.mem_cons_of_mem _ (List.mem_flatMap.mpr ⟨c, hc, List.mem_map.mpr ⟨(p, n), hp, rfl⟩⟩)
  rw [← Bool.not_eq_true]
  intro hn
  have hempty := h _ hmem hn
  obtain ⟨step, sub⟩ := c
  cases step <;> simp [Step.path] at hempty

namespace IsLone

variable (h : node.IsLone)
include h

/-- There is one table to be visited. -/
theorem tables_eq : (Tree.ofFields node).tables = [([], Tree.ofFields node)] := by
  have hbelow : Tree.tablesBelow [] node.subtrees = [] := by
    refine List.eq_nil_iff_forall_not_mem.mpr fun u hu => ?_
    have hmem : u ∈ Tree.tablesFrom [] (Tree.ofFields node) := by
      rw [Tree.tablesFrom_ofFields]
      exact List.mem_append_left _ hu
    obtain ⟨c, hc, hwalked⟩ := Tree.walked_of_mem_tablesBelow hu
    exact absurd (Tree.isTable_of_mem_tablesFrom hmem) (by simp [h.below c hc _ hwalked])
  rw [Tree.tables, Tree.tablesFrom_ofFields, hbelow, List.nil_append, if_pos h.isTable]

/-- There is no place for a relation. -/
theorem sites_eq_nil (hkeyed : node.isKeyed = true) : (Tree.ofFields node).sites = [] := by
  refine List.eq_nil_iff_forall_not_mem.mpr fun s hs => ?_
  obtain ⟨sub, hdown, -, -, hkind⟩ := (Tree.mem_sites_iff hkeyed).mp hs
  -- the way to a site is not empty, so it goes through a child
  obtain ⟨step, way, hway⟩ : ∃ step way, s.way ++ [.property (.text s.name)] = step :: way := by
    cases s.way <;> simp
  rw [hway] at hdown
  obtain ⟨root, hroot, hdown⟩ := Option.bind_eq_some_iff.mp hdown
  have hc := Entries.mem_of_get?_eq_some hroot
  have hwalked := (walked_iff_down? (isKeyed_of_mem_children hkeyed hc)).mpr ⟨way, hdown⟩
  have hfree : sub.TableFree := fun n hn => h.below _ hc n (hwalked.trans hn)
  exact hkind.elim hfree.kind_ne.1 hfree.kind_ne.2

end IsLone

end Fields

/-! ### What is left alone -/

namespace Rewriting

variable {w : Rewriting} {node : Fields}

section Children

variable {at_ : Pointer} (hkeyed : node.isKeyed = true)
  (hfree : ∀ c ∈ node.children, c.2.TableFree)
  (hvalue : ∀ c ∈ node.children, w.value (at_ ++ c.1.path) (.map c.2) = .map c.2)
include hkeyed hfree hvalue

/-- Properties stay as they are, if none of them becomes a relation and those that are nodes stay as
they are. -/
theorem ofPairs_columns_eq_self {columns : Fields}
    (hcolumns : node.mapping? "properties" = some columns) :
    Entries.ofPairs (w.columns at_ columns) = columns := by
  have hcolumn : ∀ e ∈ columns, w.column at_ e.1 e.2 = [e] := by
    rintro ⟨name, v⟩ he
    cases v with
    | map sub =>
      have hc := Fields.property_mem_children_iff.mpr ⟨columns, hcolumns, he⟩
      have hkind : Value.nodeKind (.map sub) ≠ .table ∧ Value.nodeKind (.map sub) ≠ .arrayOfTable :=
        (hfree _ hc).kind_ne
      rw [column_of_declared hkind.1 hkind.2]
      exact congrArg (fun v => [(name, v)]) (hvalue _ hc)
    | _ => simp [column, Value.nodeKind, value]
  have hself : w.columns at_ columns = columns := by
    rw [columns_eq_flatMap]
    exact (List.flatMap_congr hcolumn).trans (List.flatMap_singleton' columns)
  rw [hself]
  exact Entries.ofPairs_eq_self
    ((Fields.isKeyed_iff columns).mp (Fields.isKeyed_of_mapping? hkeyed hcolumns)).1

/-- The value of a key stays as it is. -/
theorem entry_eq_self {e : Scalar × Value} (he : e ∈ node) : w.entry at_ e.1 e.2 = e.2 := by
  obtain ⟨hd, -⟩ := (Fields.isKeyed_iff node).mp hkeyed
  obtain ⟨k, v⟩ := e
  unfold entry
  simp only
  split
  · next hk =>
    subst hk
    cases v with
    | map columns =>
      rw [properties, ofPairs_columns_eq_self hkeyed hfree hvalue (Fields.mapping?_of_mem hd he)]
    | _ => simp [properties]
  · split
    · next hk =>
      subst hk
      cases v with
      | map items =>
        have hc := Fields.items_mem_children_iff.mpr (Fields.mapping?_of_mem hd he)
        have htable : Value.isTable (.map items) = false := hfree _ hc _ (.self items)
        rw [htable, if_neg (by decide)]
        exact hvalue _ hc
      | _ => simp [Value.isTable, value]
    · rfl

end Children

/-- **A bare node without tables below it** stays as it is. -/
theorem entries_eq_self (at_ : Pointer) (hbare : node.Bare w.settings)
    (hfree : ∀ c ∈ node.children, c.2.TableFree) : w.entries at_ node = node := by
  induction node using Fields.walkInduction generalizing at_ with
  | h node ih =>
    have hvalue : ∀ c ∈ node.children, w.value (at_ ++ c.1.path) (.map c.2) = .map c.2 := by
      intro c hc
      rw [value, ih c hc _ (hbare.of_walked ((Fields.Walked.self c.2).of_child hc)) fun c' hc' =>
        (hfree c hc).of_mem_children hc']
    have hkept : (node.filter fun e => !w.owns e.1) = node := by
      refine List.filter_eq_self.mpr fun e he => ?_
      rw [owns_eq_not_keeps, hbare.keeps node (.self node) e he]
      rfl
    rw [entries_eq_map, hkept]
    refine (List.map_congr_left fun e he => ?_).trans (List.map_id node)
    rw [entry_eq_self hbare.isKeyed hfree hvalue he]
    rfl

/-- The columns of a table. -/
theorem mapping?_table (at_ : Pointer) (leaves : Scalar → Bool) (node : Fields)
    (foreignKeys : List String) :
    (w.table at_ leaves node foreignKeys).mapping? "properties" =
      some (w.ownColumns at_ leaves node ++
        foreignKeys.map fun column => (.text column, .map w.settings.foreignKey)) := by
  have hget : (w.table at_ leaves node foreignKeys).value? "properties" = _ :=
    (Entries.get?_put propertiesKey propertiesKey _ _).trans (if_pos rfl)
  rw [Fields.mapping?, hget]
  rfl

/-- **A bare table that is the only one** has its own schema, if the binder keeps none of its columns
for itself. -/
theorem table_eq_self (at_ : Pointer) {leaves : Scalar → Bool} {columns : Fields}
    (hbare : node.Bare w.settings) (hlone : node.IsLone)
    (hcolumns : node.mapping? "properties" = some columns)
    (hleaves : ∀ e ∈ columns, leaves e.1 = true) : w.table at_ leaves node [] = node := by
  have hentries := w.entries_eq_self at_ hbare hlone.below
  obtain ⟨hd, -⟩ := (Fields.isKeyed_iff node).mp hbare.isKeyed
  have hget : Entries.get? propertiesKey node = some (.map columns) :=
    Entries.get?_eq_some_of_mem hd (Fields.mem_of_mapping? hcolumns)
  have hvalue : ∀ c ∈ node.children, w.value (at_ ++ c.1.path) (.map c.2) = .map c.2 := by
    intro c hc
    have hbelow := hbare.of_walked ((Fields.Walked.self c.2).of_child hc)
    rw [value, w.entries_eq_self _ hbelow fun c' hc' => (hlone.below c hc).of_mem_children hc']
  have hown : w.ownColumns at_ leaves node = columns := by
    rw [ownColumns, hcolumns, Option.getD_some,
      ofPairs_columns_eq_self hbare.isKeyed hlone.below hvalue hcolumns]
    exact List.filter_eq_self.mpr hleaves
  rw [table, hentries, hown, List.map_nil, List.append_nil]
  exact Entries.put_of_get? hget

/-- The schema of a table is a table. -/
theorem isTable_table {at_ : Pointer} {leaves : Scalar → Bool} {foreignKeys : List String}
    (hkeyed : node.isKeyed = true) (hidentity : w.settings.owns identityKey = false)
    (htable : node.isTable = true) : (w.table at_ leaves node foreignKeys).isTable = true := by
  obtain ⟨id, hid, hne⟩ := Override.exists_identity htable
  obtain ⟨hd, -⟩ := (Fields.isKeyed_iff node).mp hkeyed
  have hproperties : Scalar.text identityKey ≠ propertiesKey := by decide
  have hitems : Scalar.text identityKey ≠ .text "items" := by decide
  have hmem : (Scalar.text identityKey, Value.text id) ∈ w.entries at_ node := by
    refine mem_entries_iff.mpr ⟨_, Entries.mem_of_get?_eq_some hid, ?_, ?_⟩
    · simp [Settings.keeps, hidentity]
    · rw [entry, if_neg hproperties, if_neg hitems]
  have hget : (w.table at_ leaves node foreignKeys).value? identityKey = some (.text id) :=
    ((Entries.get?_put _ _ _ _).trans (if_neg hproperties.symm)).trans
      (Entries.get?_eq_some_of_mem (distinct_entries hd) hmem)
  rw [Fields.isTable, hget, mapping?_table]
  simp [hne]

end Rewriting

/-! ### Compiling a lone table -/

/-- **A lone table has no overrides for the rules to complain about.** -/
theorem Override.isValid_of_bare {schema : Fields} (hbare : schema.Bare settings)
    (hlone : schema.IsLone)
    (htitle : schema.value "title" = .null ∨ ∃ title, schema.value "title" = .text title) :
    (checkAll settings schema).isValid = true := by
  refine isValid_iff_noErrors.mpr fun node hnode => ?_
  have hnone : ∀ o, settings.override? o node = none := (hbare.of_walked hnode).override?_eq_none
  refine ⟨fun o _ => by rw [textComplaint?, hnone], ?_, fun v hv => ?_⟩
  · rcases Fields.walked_iff.mp hnode with rfl | ⟨c, hc, hwalked⟩
    · rw [titleComplaint?]
      rcases htitle with htitle | ⟨title, htitle⟩ <;> simp [htitle]
    · rw [titleComplaint?, hlone.below c hc node hwalked]
      rfl
  · rw [hnone] at hv
    cases hv

/-- **A bare schema whose root is a table, and the only one, compiles to itself**: to one descriptor
without relations, with the same schema. -/
theorem compile_lone {schema : Fields} (hset : settings.IsValid)
    (hproperties : settings.owns "properties" = false) (hitems : settings.owns "items" = false)
    (hbare : schema.Bare settings) (hlone : schema.IsLone)
    (htitle : schema.value "title" = .null ∨ ∃ title, schema.value "title" = .text title)
    {columns : Fields} (hcolumns : schema.mapping? "properties" = some columns)
    {binder : Binder η ε} (hleaves : ∀ name ∈ binder.virtual, .text name ∉ Entries.keys columns)
    (htakes : ∀ before d, ∃ handle, binder.create before d = .ok handle) :
    ∃ models d, (compile binder settings (.map schema)).result = .ok models ∧
      (compile binder settings (.map schema)).tables = [d] ∧ d.relations = [] ∧
        d.schema = schema := by
  have hkeyed := hbare.isKeyed
  have hsites := hlone.sites_eq_nil hkeyed
  have htables := hlone.tables_eq
  obtain ⟨models, hok⟩ := exists_result binder hset hkeyed
    (Override.isValid_of_bare hbare hlone htitle) (fun t ht => by
      rw [htables, List.mem_singleton] at ht
      rw [ht, Tree.siteNames, hsites]
      exact List.nodup_nil) htakes
  have hlength := length_tables_of_result_eq_ok hset hkeyed hok
  rw [htables] at hlength
  obtain ⟨d, hd⟩ := List.length_eq_one_iff.mp hlength.symm
  have hroot : (Tree.ofFields schema).tables[0]? = some ([], Tree.ofFields schema) := by
    rw [htables]
    rfl
  have hplace : (compile binder settings (.map schema)).tables[0]? = some d := by
    rw [hd]
    rfl
  have hdescribes := describes_of_result_eq_ok hset hkeyed hok hroot hplace
  have hrelations := hdescribes.relations
  rw [hsites, List.map_nil, List.perm_nil] at hrelations
  obtain ⟨foreignKeys, -, hasked, hschema⟩ :=
    exists_schema_eq_table hset hkeyed hproperties hitems hok hroot hplace
  -- nothing is asked for, since there is no site
  have hnone : foreignKeys = [] := by
    refine List.eq_nil_iff_forall_not_mem.mpr fun column hcolumn => ?_
    obtain ⟨-, u, hu, a, ha, -⟩ := (hasked column).mp hcolumn
    rw [htables, List.mem_singleton] at hu
    rw [hu, hsites] at ha
    cases ha
  subst hnone
  refine ⟨models, d, hok, hd, List.map_eq_nil_iff.mp hrelations, hschema.trans ?_⟩
  refine Rewriting.table_eq_self [] hbare hlone hcolumns fun e he => ?_
  obtain ⟨k, v⟩ := e
  cases k with
  | text name =>
    have hnot : name ∉ binder.virtual := fun hmem =>
      hleaves name hmem (List.mem_map.mpr ⟨_, he, rfl⟩)
    simp [Walk.Setting.leaves, hnot]
  | _ => rfl

/-- The schema that a foreign key has by default is bare. -/
theorem bare_foreignKey (hforeign : settings.foreignKey = ({} : Settings).foreignKey)
    (hspares : settings.SparesKeywords) : settings.foreignKey.Bare settings := by
  rw [hforeign]
  refine ⟨by decide, fun n hn e he => ?_⟩
  have htype : settings.owns "type" = false := hspares _ (by decide)
  rcases Fields.walked_iff.mp hn with rfl | ⟨c, hc, -⟩
  · obtain rfl := List.mem_singleton.mp he
    rw [Settings.keeps, htype]
    rfl
  · cases hc

/-- **A registered schema can be compiled again.** If the root is the only table that is left in it,
its title is a text if there is one and no column has a name that the binder keeps for itself, then it
compiles to one descriptor, which has no relations and the same schema. Keys and columns are in the
same order, since the schemas are equal as sequences. -/
theorem compile_again (hset : settings.IsValid)
    (hforeign : settings.foreignKey = ({} : Settings).foreignKey)
    (hspares : settings.SparesKeywords) {schema : Fields} (hkeyed : schema.isKeyed = true) {binder : Binder η ε}
    {models : Entries String η} (hok : (compile binder settings (.map schema)).result = .ok models)
    {d : Descriptor η} (hd : d ∈ (compile binder settings (.map schema)).tables)
    (halone : ∀ n ∈ d.schema.nodes, n.2.isTable = true → n.1 = [])
    (htitle : d.schema.value "title" = .null ∨ ∃ title, d.schema.value "title" = .text title)
    (hcolumns : ∀ name ∈ binder.virtual, .text name ∉ Entries.keys d.columns)
    {η' ε' : Type} {binder' : Binder η' ε'} (hvirtual : binder'.virtual = binder.virtual)
    (htakes : ∀ before d', ∃ handle, binder'.create before d' = .ok handle) :
    ∃ models' d', (compile binder' settings (.map d.schema)).result = .ok models' ∧
      (compile binder' settings (.map d.schema)).tables = [d'] ∧ d'.relations = [] ∧
        d'.schema = d.schema := by
  have hproperties : settings.owns "properties" = false := hspares _ (by decide)
  have hitems : settings.owns "items" = false := hspares _ (by decide)
  have hbare := bare_schema hset hkeyed hproperties hitems (bare_foreignKey hforeign hspares) hok hd
  obtain ⟨i, hi⟩ := List.getElem?_of_mem hd
  obtain ⟨t, ht⟩ : ∃ t, (Tree.ofFields schema).tables[i]? = some t :=
    ⟨_, List.getElem?_eq_getElem (length_tables_of_result_eq_ok hset hkeyed hok ▸
      (List.getElem?_eq_some_iff.mp hi).1)⟩
  obtain ⟨foreignKeys, -, -, hschema⟩ :=
    exists_schema_eq_table hset hkeyed hproperties hitems hok ht hi
  have hmem := List.mem_of_getElem? ht
  have htable : d.schema.isTable = true :=
    hschema ▸ Rewriting.isTable_table (Tree.ofFields_of_mem_tables hkeyed hmem).2
      (hspares _ (by decide)) (Tree.isTable_of_mem_tablesFrom hmem)
  obtain ⟨columns, hmapping⟩ : ∃ columns, d.schema.mapping? "properties" = some columns :=
    ⟨_, hschema ▸ Rewriting.mapping?_table _ _ _ _⟩
  refine compile_lone hset hproperties hitems hbare (Fields.isLone_of_nodes htable halone) htitle
    hmapping (fun name hname => ?_) htakes
  have hget : d.schema.get? propertiesKey = some (.map columns) :=
    Entries.get?_eq_some_of_mem ((Fields.isKeyed_iff _).mp hbare.isKeyed).1
      (Fields.mem_of_mapping? hmapping)
  rw [← Descriptor.columns_eq hget]
  exact hcolumns name (hvirtual ▸ hname)

/-- A part with its maker, its size and a note, and made of other parts. A table that nothing visits
is among its definitions. -/
def partSchema : Fields :=
  [(.text "$id", .text "part"), (.text "x-relschema-model-name", .text "Assembly"),
    (.text "title", .text "part"),
    (.text "properties", .object [("maker", .object [("$id", .text "maker")]),
      ("size", .object [("x-relschema-id-column", .text "unit"), ("properties", .object
        [("width", .object [("type", .text "number")])])]),
      ("note", .object [("type", .text "string")]),
      ("parts", .object [("items", .object [("$id", .text "part")])])]),
    (.text "definitions", .object [("drawing", .object [("$id", .text "drawing")])])]

/-- What is registered for the part: its maker is a foreign key, the parts are gone and have left one
behind, and neither an override nor the note is there. -/
def partTable : Fields :=
  [(.text "$id", .text "part"), (.text "title", .text "part"),
    (.text "properties", .object [("maker_id", .object [("type", .text "integer")]),
      ("size", .object [("properties", .object
        [("width", .object [("type", .text "number")])])]),
      ("part_id", .object [("type", .text "integer")])]),
    (.text "definitions", .object [("drawing", .object [("$id", .text "drawing")])])]

/-- A binder that keeps notes for itself. -/
def noteKeeper : Binder Nat Empty :=
  { Binder.counting with virtual := ["note"] }

theorem compile_again_part :
    let outcome := compile noteKeeper {} (.map partSchema)
    ∃ d, outcome.result = .ok [("maker", 0), ("part", 1), ("Assembly", 2)] ∧
      outcome.tables[2]? = some d ∧ d.schema = partTable ∧
      ∃ models' d', (compile noteKeeper {} (.map d.schema)).result = .ok models' ∧
        (compile noteKeeper {} (.map d.schema)).tables = [d'] ∧ d'.relations = [] ∧
          d'.schema = d.schema := by
  intro outcome
  have htable : outcome.tables[2]?.map (fun d => d.schema) = some partTable := rfl
  obtain ⟨d, hd, hschema⟩ := Option.map_eq_some_iff.mp htable
  have hok : outcome.result = .ok [("maker", 0), ("part", 1), ("Assembly", 2)] := rfl
  have hspares : ({} : Settings).SparesKeywords := by
    unfold Settings.SparesKeywords
    decide
  refine ⟨d, hok, hd, hschema, compile_again Settings.isValid_default rfl hspares (by decide) hok
    (List.mem_of_getElem? hd) ?_ (.inr ⟨"part", by rw [hschema]; rfl⟩) ?_ rfl
    fun before _ => ⟨0 + before.length, rfl⟩⟩
  · rw [hschema]
    decide
  · intro name hname
    obtain rfl := List.mem_singleton.mp hname
    rw [Descriptor.columns_eq (by rw [hschema]; rfl)]
    decide

end NestedTables
