import NestedTables.Proofs.Binding.Building
import NestedTables.Proofs.Binding.Joins

/-!
# Building early or late

A database may receive the tables of several schemas, and it may be built in between. A table that
has been built stays as it is, whatever is assigned to its columns later. So it could matter when the
database is built. It does not if the schemas keep to themselves: that they have no table name in
common, and that none of them names a column of a table of an earlier one
(`Binding.build_early_or_late`).

The reason is a frame. The relations of a compiled schema assign columns of the tables of that
schema only, apart from the columns that an array of tables names (`Fields.assigns_of_compiled`); and
the foreign keys of a table come from the assignments to its own columns. So the foreign keys of what
has been built already are the same as before, and building goes through the earlier tables in the
same way.
-/

namespace NestedTables

variable {η ε : Type}

/-! ### Reading the table of a reference -/

namespace ColumnRef

/-- What stands before a dot is the table of the reference, if there is one. -/
theorem table_of_ofText? {table rest : String} {r : ColumnRef}
    (h : ofText? (table ++ "." ++ rest) = some r) : r.table = table := by
  obtain ⟨heq, ⟨-, htable⟩, ⟨-, hcolumn⟩⟩ := (ofText?_eq_some_iff ..).mp h
  have hlist : r.table.toList ++ '.' :: r.column.toList = table.toList ++ '.' :: rest.toList := by
    simpa [written] using (congrArg String.toList heq).symm
  -- the text has one dot only, so both sides are cut at the same place
  have hcut := (List.append_cons_inj_of_notMem htable hcolumn).mp hlist
  exact String.toList_injective hcut.1

/-- What stands first, with dots in between. -/
theorem table_of_ofText?_intercalate {table part : String} {parts : List String} {r : ColumnRef}
    (h : ofText? (".".intercalate (table :: part :: parts)) = some r) : r.table = table := by
  rw [String.intercalate_cons_cons] at h
  exact table_of_ofText? h

end ColumnRef

/-! ### What the relations of a schema assign -/

/-- Whether an array of a schema, or any other node of it, names a column by the override for
joins. -/
def Fields.NamesColumn (schema : Fields) (settings : Settings) (c : ColumnRef) : Prop :=
  ∃ node, schema.Walked node ∧
    ((settings.override? .joinToColumn node).bind Value.text?).bind ColumnRef.ofText? = some c

section Relations

variable {setting : Walk.Setting η ε} {owner : Tree} {s : Site} {c : ColumnRef}

/-- The own column of a relation is a column of its owner. -/
theorem Site.table_of_joinFrom {own : String}
    (hown : (s.relation setting (owner.context setting.settings) : Relation Unit).joinFrom =
      some own)
    (hc : ColumnRef.ofText? own = some c) :
    c.table = (owner.fields.names setting.settings).tableName := by
  unfold relation at hown
  split at hown
  · obtain rfl := Option.some.inj hown
    cases hway : s.way with
    | nil =>
      rw [hway] at hc
      exact ColumnRef.table_of_ofText?_intercalate hc
    | cons step way =>
      rw [hway] at hc
      exact ColumnRef.table_of_ofText?_intercalate hc
  · obtain rfl := Option.some.inj hown
    exact ColumnRef.table_of_ofText? hc

/-- The other column is a column of the target, unless the array names it. -/
theorem Site.table_of_joinTo
    (hc : ColumnRef.ofText?
      (s.relation setting (owner.context setting.settings) : Relation Unit).joinTo = some c) :
    c.table = (s.target.names setting.settings).tableName ∨
      ((setting.settings.override? .joinToColumn s.child.fields).bind Value.text?).bind
        ColumnRef.ofText? = some c := by
  unfold relation at hc
  split at hc
  · exact .inl (ColumnRef.table_of_ofText? hc)
  · simp only at hc
    split at hc
    · next ref hjoin =>
      rw [Fields.joinToColumn_of_join hjoin]
      exact .inr hc
    · exact .inl (ColumnRef.table_of_ofText? hc)
    · exact .inl (ColumnRef.table_of_ofText? hc)

end Relations

section Compiled

variable {settings : Settings} {schema : Fields} {binder : Binder η ε} {models : Entries String η}

/-- The name of a table is one of the names that the rules know. -/
theorem tableName_mem_tableNames (hvalid : (Override.checkAll settings schema).isValid = true)
    (hkeyed : schema.isKeyed = true) {t : Pointer × Tree} (ht : t ∈ (Tree.ofFields schema).tables) :
    (t.2.fields.names settings).tableName ∈ schema.tableNames settings := by
  have hnode := Override.isValid_iff_noErrors.mp hvalid _ (Tree.walked_of_mem_tables ht)
  obtain ⟨_, table, -, htable, rfl⟩ := (Tree.mem_tables_iff_down? hkeyed).mp ht
  obtain ⟨name, hname, -⟩ := Override.exists_name hnode htable (Or.inl rfl)
  have hname' : table.tableName? settings = some (.text name) := hname
  have hcalled : (table.names settings).tableName = name := by
    rw [Fields.names, hname']
    rfl
  exact Fields.mem_tableNames_iff_tables.mpr ⟨_, ht, hcalled ▸ hname'⟩

/-- A registered table has one of the names that the rules know. -/
theorem Fields.tableName_of_compiled (hset : settings.IsValid) (hkeyed : schema.isKeyed = true)
    (hok : (compile binder settings (.map schema)).result = .ok models) {d : Descriptor η}
    (hd : d ∈ (compile binder settings (.map schema)).tables) :
    d.tableName ∈ schema.tableNames settings := by
  obtain ⟨i, hi⟩ := List.getElem?_of_mem hd
  obtain ⟨t, ht, hdescribes⟩ := exists_described hset hkeyed hok hi
  rw [hdescribes.tableName]
  exact tableName_mem_tableNames (isValid_of_result_eq_ok binder hok) hkeyed
    (List.mem_of_getElem? ht)

/-- **What is assigned in a compiled schema**: columns of its own tables, and columns that it
names. -/
theorem Fields.assigns_of_compiled (hset : settings.IsValid) (hkeyed : schema.isKeyed = true)
    (hok : (compile binder settings (.map schema)).result = .ok models) {d : Descriptor η}
    (hd : d ∈ (compile binder settings (.map schema)).tables) {e : String × Relation η}
    (he : e ∈ d.relations) {one many : Value} {c : ColumnRef} {text : String}
    (hassigned : (c, text) ∈ e.2.assignments one many) :
    c.table ∈ schema.tableNames settings ∨ schema.NamesColumn settings c := by
  have hvalid := isValid_of_result_eq_ok binder hok
  obtain ⟨i, hi⟩ := List.getElem?_of_mem hd
  obtain ⟨t, hplace, hdescribes⟩ := exists_described hset hkeyed hok hi
  have ht := List.mem_of_getElem? hplace
  obtain ⟨s, hs, -, hrelation⟩ := hdescribes.exists_site he
  obtain ⟨t', ht', htarget⟩ := Tree.exists_target hkeyed ht hs
  have howner := tableName_mem_tableNames hvalid hkeyed ht
  have hother : (s.target.names settings).tableName ∈ schema.tableNames settings :=
    htarget ▸ tableName_mem_tableNames hvalid hkeyed ht'
  obtain ⟨source, hassigns, hsource, -⟩ := Relation.mem_assignments_iff.mp hassigned
  cases hassigns with
  | toOne _ hown _ =>
    have hfrom := (congrArg Relation.joinFrom hrelation).trans hown
    exact .inl (Site.table_of_joinFrom hfrom hsource ▸ howner)
  | toMany _ _ _ _ =>
    have hto : ColumnRef.ofText? (s.relation (⟨settings, binder⟩ : Walk.Setting η ε)
        (t.2.context settings) : Relation Unit).joinTo = some c :=
      (congrArg (ColumnRef.ofText? ∘ Relation.joinTo) hrelation).trans hsource
    rcases Site.table_of_joinTo hto with heq | hnamed
    · exact .inl (heq ▸ hother)
    · exact .inr ⟨_, Tree.walked_of_mem_sites hkeyed ht hs, hnamed⟩
  | source hthrough _ =>
    obtain ⟨source', _, hread, -, -, hmem⟩ :=
      exists_reference_of_through hset hkeyed hok hd he hthrough
    obtain rfl := Option.some.inj (hread.symm.trans hsource)
    exact .inl hmem
  | target hthrough =>
    obtain ⟨_, target, -, hread, heq, hmem⟩ :=
      exists_reference_of_through hset hkeyed hok hd he hthrough
    obtain rfl := Option.some.inj (hread.symm.trans hsource)
    exact .inl (heq ▸ hmem)

end Compiled

/-! ### More tables than before -/

/-- New keys come behind the old ones. -/
theorem Entries.foldl_put_append {κ α : Type} [DecidableEq κ] {ps es : Entries κ α}
    (h : ∀ p ∈ ps, p.1 ∉ keys es) (fs : Entries κ α) :
    ps.foldl (fun es e => put e.1 e.2 es) (es ++ fs) =
      es ++ ps.foldl (fun es e => put e.1 e.2 es) fs := by
  have hput : ∀ {k : κ}, k ∉ keys es → ∀ (v : α) fs, put k v (es ++ fs) = es ++ put k v fs := by
    intro k hk v fs
    induction es with
    | nil => rfl
    | cons e es ih =>
      obtain ⟨hne, hes⟩ := not_or.mp (mt List.mem_cons.mpr hk)
      have hrest := ih (fun p hp hmem => h p hp (List.mem_cons_of_mem _ hmem)) hes
      rw [List.cons_append, put, if_neg (Ne.symm hne), hrest, List.cons_append]
  induction ps generalizing fs with
  | nil => rfl
  | cons p ps ih =>
    rw [List.foldl_cons, List.foldl_cons, hput (h p List.mem_cons_self),
      ih fun q hq => h q (List.mem_cons_of_mem _ hq)]

namespace ForeignKeys

variable {one many : Value}

/-- The foreign keys of a table stay as they are when the relations of more tables do not assign its
columns. -/
theorem ofTable_append (tables others : List (Descriptor η)) {table : String}
    (hothers : ∀ a ∈ assignments one many others, a.1.table ≠ table) :
    (ofModel one many (tables ++ others)).ofTable table =
      (ofModel one many tables).ofTable table := by
  have hnone : within table (assignments one many others) = [] :=
    List.filterMap_eq_nil_iff.mpr fun a ha => if_neg (hothers a ha)
  have happend : assignments one many (tables ++ others) =
      assignments one many tables ++ assignments one many others := List.flatMap_append
  rw [ofTable_ofModel, ofTable_ofModel, happend, within_append, hnone, List.append_nil]

end ForeignKeys

namespace Catalog

variable {keys keys' : ForeignKeys}

/-- Building depends on the foreign keys of the tables that are built. -/
theorem build_congr {tables : Entries String (Descriptor η)} (catalog : Catalog)
    (h : ∀ table ∈ Entries.keys tables, keys.ofTable table = keys'.ofTable table) :
    build keys tables catalog = build keys' tables catalog := by
  induction tables generalizing catalog with
  | nil => rfl
  | cons e rest ih =>
    obtain ⟨table, d⟩ := e
    have hrest := fun catalog => ih catalog fun t ht => h t (List.mem_cons_of_mem _ ht)
    rw [build, build, h table List.mem_cons_self, hrest]
    simp only [hrest]

/-- Building more tables goes on where building the first ones has ended. -/
theorem build_append (keys : ForeignKeys) (tables others : Entries String (Descriptor η))
    (catalog : Catalog) :
    build keys (tables ++ others) catalog = match build keys tables catalog with
      | (built, .ok ()) => build keys others built
      | (built, .error fault) => (built, .error fault) := by
  induction tables generalizing catalog with
  | nil => rfl
  | cons e rest ih =>
    obtain ⟨table, d⟩ := e
    rw [List.cons_append, build, build]
    split
    · exact ih _
    · cases d.build (keys.ofTable table) with
      | error fault => rfl
      | ok columns => exact ih _

/-- **Building in between makes no difference** if the foreign keys of the first tables are the same
with the others and without them. -/
theorem build_build_append {tables : Entries String (Descriptor η)}
    (others : Entries String (Descriptor η)) (catalog : Catalog) (hdistinct : tables.Distinct)
    (h : ∀ table ∈ Entries.keys tables, keys'.ofTable table = keys.ofTable table) :
    build keys' (tables ++ others) (build keys tables catalog).1 =
      build keys' (tables ++ others) catalog := by
  rw [build_append, build_append, build_congr _ h, build_congr _ h, build_build _ _ hdistinct]

end Catalog

namespace Binding

variable {b : Binding} {ds : List (Descriptor Nat)}

/-- Tables of other names come behind those that have been received. -/
theorem exists_received_append (h : ∀ d ∈ ds, d.tableName ∉ Entries.keys b.received) :
    ∃ others, (b.receiveAll ds).received = b.received ++ others ∧ ∀ e ∈ others, e.2 ∈ ds := by
  refine ⟨Entries.ofPairs (ds.map fun d => (d.tableName, d)), ?_, fun e he => ?_⟩
  · have hnew : ∀ p ∈ ds.map fun d => (d.tableName, d), p.1 ∉ Entries.keys b.received := by
      rintro _ hp
      obtain ⟨d, hd, rfl⟩ := List.mem_map.mp hp
      exact h d hd
    have happend := Entries.foldl_put_append hnew []
    rw [List.append_nil] at happend
    rw [receiveAll_eq]
    exact happend
  · obtain ⟨d, hd, rfl⟩ := List.mem_map.mp (Entries.mem_of_mem_ofPairs he)
    exact hd

/-- **Building before more tables are received** makes no difference after that, if they have new
names and their relations do not assign columns of the tables that have been received before. -/
theorem build_receiveAll (hreceived : b.received.Distinct)
    (hnames : ∀ d ∈ ds, d.tableName ∉ Entries.keys b.received)
    (hassigned : ∀ d ∈ ds, ∀ e ∈ d.relations, ∀ a ∈ e.2.assignments b.belongsToOne b.hasMany,
      a.1.table ∉ Entries.keys b.received) :
    (b.build.1.receiveAll ds).build = (b.receiveAll ds).build := by
  obtain ⟨others, hothers, hmem⟩ := exists_received_append hnames
  have hkeys : ∀ table ∈ Entries.keys b.received,
      (b.receiveAll ds).foreignKeys.ofTable table = b.foreignKeys.ofTable table := by
    intro table htable
    have hforeign : (b.receiveAll ds).foreignKeys = ForeignKeys.ofModel b.belongsToOne b.hasMany
        ((b.receiveAll ds).received.map (·.2)) := by
      rw [receiveAll_eq]
      rfl
    rw [hforeign, hothers, List.map_append]
    refine ForeignKeys.ofTable_append _ _ fun a ha heq => ?_
    obtain ⟨d, hd, hrelations⟩ := List.mem_flatMap.mp ha
    obtain ⟨e, he, ha⟩ := List.mem_flatMap.mp hrelations
    obtain ⟨t, ht, rfl⟩ := List.mem_map.mp hd
    exact hassigned _ (hmem t ht) e he a ha (heq ▸ htable)
  have hbuild := Catalog.build_build_append others b.catalog hreceived hkeys
  rw [← hothers] at hbuild
  -- the two bindings differ in their catalogues only
  have hbuilt : b.build.1.receiveAll ds = { b.receiveAll ds with
      catalog := (b.catalog.build b.foreignKeys b.received).1 } := by
    rw [receiveAll_eq, receiveAll_eq]
    rfl
  have hcatalog : b.receiveAll ds = { b.receiveAll ds with catalog := b.catalog } := by
    rw [receiveAll_eq]
  have hfrom : ∀ catalog : Catalog, ({ b.receiveAll ds with catalog } : Binding).build =
      ({ b.receiveAll ds with catalog := (catalog.build (b.receiveAll ds).foreignKeys
        (b.receiveAll ds).received).1 },
        (catalog.build (b.receiveAll ds).foreignKeys (b.receiveAll ds).received).2) :=
    fun _ => rfl
  rw [hbuilt, hfrom, hbuild, ← hfrom, ← hcatalog]

/-! ### Two schemas -/

variable {ε₁ ε₂ : Type} {virtual : List String} {settings₁ settings₂ : Settings} {s₁ s₂ : Fields}
  {create₁ : List (Descriptor Nat) → Descriptor Nat → Except ε₁ Nat}
  {create₂ : List (Descriptor Nat) → Descriptor Nat → Except ε₂ Nat}

/-- **Building early or late gives the same database.** Let two schemas compile into a database that
has not received anything, the second after the first, such that they have no table name in common
and the second names no column of a table of the first. Then it makes no difference if the database
is built in between: the second schema compiles in the same way, and building ends with the same
tables in the same order, and in the same way. -/
theorem build_early_or_late {b b₁ b₂ : Binding} (hfresh : b.received = [])
    (hset₁ : settings₁.IsValid) (hkeyed₁ : s₁.isKeyed = true) (hset₂ : settings₂.IsValid)
    (hkeyed₂ : s₂.isKeyed = true) {models₁ models₂ : Entries String (Descriptor Nat)}
    (hfirst : b.compile virtual create₁ settings₁ (.map s₁) = (b₁, .ok models₁))
    (hsecond : b₁.compile virtual create₂ settings₂ (.map s₂) = (b₂, .ok models₂))
    (hnames : ∀ table ∈ s₁.tableNames settings₁, table ∉ s₂.tableNames settings₂)
    (hjoins : ∀ c, s₂.NamesColumn settings₂ c → c.table ∉ s₁.tableNames settings₁) :
    ∃ early, b₁.build.1.compile virtual create₂ settings₂ (.map s₂) = (early, .ok models₂) ∧
      early.build = b₂.build := by
  obtain ⟨hb₁, handles₁, hok₁, -⟩ := compile_eq_ok hfirst
  obtain ⟨hb₂, handles₂, hok₂, -⟩ := compile_eq_ok hsecond
  have hreceived : b₁.received.Distinct := by
    rw [hb₁]
    exact distinct_receiveAll (by rw [hfresh]; exact List.nodup_nil) _
  -- what the first schema leaves has the names of its tables
  have hknown : ∀ table ∈ Entries.keys b₁.received, table ∈ s₁.tableNames settings₁ := by
    intro table htable
    rw [hb₁, keys_receiveAll hfresh, List.mem_eraseDups] at htable
    obtain ⟨d, hd, rfl⟩ := List.mem_map.mp htable
    exact Fields.tableName_of_compiled hset₁ hkeyed₁ hok₁ hd
  refine ⟨_, Prod.ext rfl (congrArg Prod.snd hsecond :), ?_⟩
  rw [hb₂]
  refine build_receiveAll hreceived (fun d hd hmem => ?_) fun d hd e he a ha hmem => ?_
  · exact hnames _ (hknown _ hmem) (Fields.tableName_of_compiled hset₂ hkeyed₂ hok₂ hd)
  · rcases Fields.assigns_of_compiled hset₂ hkeyed₂ hok₂ hd he ha with hname | hnamed
    · exact hnames _ (hknown _ hmem) hname
    · exact hjoins _ hnamed (hknown _ hmem)

/-- Orders, with lines that refer to them. -/
def ordersSchema : Fields :=
  [(.text "$id", .text "order"), (.text "properties", .object
    [("lines", .object [("items", .object [("$id", .text "line")])])])]

/-- A depot in a town, with shelves that name the column which refers to it. -/
def depotSchema : Fields :=
  [(.text "$id", .text "depot"), (.text "properties", .object
    [("town", .object [("$id", .text "town")]),
      ("shelves", .object [("items", .object [("$id", .text "shelf")]),
        ("x-relschema-join-to-column", .text "shelf.depot")])])]

/-- A database that has a table already. -/
def auditing : Binding where
  catalog := [("audit", [.identity "id"])]

/-- Compiles a schema as it comes. -/
def receiveIn (b : Binding) (schema : Fields) :
    Binding × Except (Failure Empty) (Entries String (Descriptor Nat)) :=
  b.compile [] (Binder.counting : Binder Nat Empty).create {} (.map schema)

/-- Whether the orders have been built or not when the depot is received, the database has the same
tables in the end, behind the one that it had before. -/
theorem build_early_or_late_depot :
    let ordered := (auditing.receiveIn ordersSchema).1
    let late := (ordered.receiveIn depotSchema).1
    auditing.received = [] ∧ ordered.build.2 = .ok () ∧
      Entries.keys ordered.build.1.catalog = ["audit", "line", "order"] ∧
      late.build.2 = .ok () ∧
      Entries.keys late.build.1.catalog = ["audit", "line", "order", "town", "shelf", "depot"] ∧
      ∃ early models, ordered.build.1.receiveIn depotSchema = (early, .ok models) ∧
        early.build = late.build := by
  intro ordered late
  obtain ⟨orders, horders⟩ : ∃ models, (auditing.receiveIn ordersSchema).2 = .ok models := ⟨_, rfl⟩
  obtain ⟨depots, hdepots⟩ : ∃ models,
      ((auditing.receiveIn ordersSchema).1.receiveIn depotSchema).2 = .ok models := ⟨_, rfl⟩
  have hfirst : auditing.receiveIn ordersSchema = (ordered, .ok orders) := Prod.ext rfl horders
  have hsecond : ordered.receiveIn depotSchema = (late, .ok depots) := Prod.ext rfl hdepots
  have hjoins : ∀ c, depotSchema.NamesColumn {} c → c.table ∉ ordersSchema.tableNames {} := by
    rintro c ⟨node, ⟨p, hnode⟩, hc⟩
    have hall : ∀ n ∈ depotSchema.nodes, ∀ c ∈ ((({} : Settings).override? .joinToColumn n.2).bind
        Value.text?).bind ColumnRef.ofText?, c.table ∉ ordersSchema.tableNames {} := by
      decide
    exact hall _ hnode c hc
  obtain ⟨early, hearly, hsame⟩ := build_early_or_late rfl Settings.isValid_default (by decide)
    Settings.isValid_default (by decide) hfirst hsecond (by decide) hjoins
  exact ⟨rfl, build_eq_ok_of_toOption (by decide +kernel), by decide +kernel,
    build_eq_ok_of_toOption (by decide +kernel), by decide +kernel, early, depots, hearly, hsame⟩

end Binding

end NestedTables
