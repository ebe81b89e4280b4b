import NestedTables.Proofs.Binding.Joins
import NestedTables.Proofs.Binding.Prescribed
import NestedTables.Proofs.Compile.Kept

/-!
# Columns that may not be null

A node says which of its properties are required, and a compiled table says the same, since its
`required` is that of the node. A built column may not be null if its name is among these. For a
property that keeps its name this is what the node means. A table under a property does not keep
it: its column is named after the foreign key, and so it may be null unless the node requires the
name of the foreign key itself (`Binding.compile_required`). That the node requires the table has
no effect (`Binding.compile_required_lost`).
-/

namespace NestedTables

variable {η : Type}

/-! ### Required names -/

/-- Whether a name is among what a value requires. -/
def Value.Requires (v : Value) (name : String) : Prop :=
  ∃ members, v.members? = some members ∧ Value.text name ∈ members

/-- Whether a node requires a name, by an entry that is no override. -/
def Fields.Requires (settings : Settings) (node : Fields) (name : String) : Prop :=
  settings.owns "required" = false ∧ (node.value "required").Requires name

/-- A value that counts as false has no members. -/
theorem Value.members?_eq_nil {v : Value} (h : v.truthy = false) {members : List Value}
    (hmembers : v.members? = some members) : members = [] := by
  cases v with
  | scalar s =>
    cases s with
    | text s =>
      obtain rfl : s = "" := by simpa [truthy, Scalar.truthy] using h
      simpa [members?] using hmembers.symm
    | bytes bs =>
      obtain rfl : bs = [] := by simpa [truthy, Scalar.truthy] using h
      simpa [members?] using hmembers.symm
    | _ => simp [members?] at hmembers
  | list vs | map es | set ms =>
    simp_all [truthy, members?]
  | pair a b => simp [truthy] at h

theorem Value.not_requires_null (name : String) : ¬ Value.null.Requires name := by
  rintro ⟨members, h, -⟩
  simp [members?] at h

namespace Descriptor

variable {d : Descriptor η} {keys : Entries String String} {required : List String}
  {columns : List Column} {properties : Fields}

/-- What a table requires is what the schema of its descriptor does. -/
theorem mem_required_iff (h : d.required? = some required) {name : String} :
    name ∈ required ↔ (d.schema.value "required").Requires name := by
  have htext : ∀ members : List Value,
      name ∈ members.filterMap Value.text? ↔ Value.text name ∈ members := by
    intro members
    simp [List.mem_filterMap, Value.text?_eq_some_iff]
  simp only [required?] at h
  split at h
  · next hfalse =>
    obtain rfl := Option.some.inj h
    refine iff_of_false List.not_mem_nil ?_
    rintro ⟨members, hmembers, hname⟩
    rw [Value.members?_eq_nil (by simpa using hfalse) hmembers] at hname
    exact List.not_mem_nil hname
  · split at h
    · next members hmembers =>
      split at h
      · obtain rfl := Option.some.inj h
        rw [htext, Value.Requires, hmembers]
        simp
      · simp at h
    · simp at h

/-- Of a table that is built it is known what it requires. -/
theorem exists_required_of_build (h : d.build keys = .ok columns) :
    ∃ required, d.required? = some required := by
  cases hrequired : d.required? with
  | some required => exact ⟨required, rfl⟩
  | none => simp [build, hrequired] at h

section Build

variable (h : d.build keys = .ok columns) (hproperties : d.properties = .map properties)
  (hrequired : d.required? = some required)
include h hproperties hrequired

/-- A column that may not be null is the identity column or required. -/
theorem eq_or_mem_required_of_build {c : Column} (hc : c ∈ columns) (hnull : c.nullable = false) :
    c.name = d.idColumn ∨ c.name ∈ required := by
  cases grouped_of_build h hproperties hrequired hc with
  | identity => exact Or.inl rfl
  | declared _ _ hdeclares =>
    rw [hdeclares.nullable] at hnull
    rw [hdeclares.name]
    exact Or.inr (by simpa using hnull)
  | added => simp [Column.reference] at hnull

/-- **The column of a property** may not be null if the property is the identity column or is
required. -/
theorem nullable_iff_of_build {name : String} (hname : .text name ∈ properties.keys) {c : Column}
    (hc : c ∈ columns) (heq : c.name = name) :
    c.nullable = false ↔ name = d.idColumn ∨ name ∈ required := by
  subst heq
  constructor
  · exact eq_or_mem_required_of_build h hproperties hrequired hc
  · intro hmust
    cases grouped_of_build h hproperties hrequired hc with
    | identity => rfl
    | declared _ hne hdeclares =>
      rw [hdeclares.name] at hmust
      rw [hdeclares.nullable]
      simpa using hmust.resolve_left hne
    | added _ hnot _ => exact absurd hname hnot

/-- Every property has a column. -/
theorem exists_column_of_build {name : String} (hname : .text name ∈ properties.keys) :
    ∃ c ∈ columns, c.name = name := by
  have hmem : name ∈ columns.map Column.name := by
    rw [map_name_of_build h hproperties hrequired, List.mem_cons, List.mem_append]
    by_cases hid : name = d.idColumn
    · exact Or.inl hid
    · exact Or.inr (Or.inl (List.mem_filter.mpr
        ⟨List.mem_map.mpr ⟨_, hname, rfl⟩, by simpa using hid⟩))
  exact List.mem_map.mp hmem

end Build

end Descriptor

namespace Binding

/-! ### The last table of a name -/

/-- Of tables with the same name the last one is kept. -/
theorem mem_receiveAll_of_last (b : Binding) {ds : List (Descriptor Nat)} {i : Nat}
    {d : Descriptor Nat} (hd : ds[i]? = some d)
    (hlast : ∀ j d', i < j → ds[j]? = some d' → d'.tableName ≠ d.tableName) :
    (d.tableName, d) ∈ (b.receiveAll ds).received := by
  obtain ⟨hi, hget⟩ := List.getElem?_eq_some_iff.mp hd
  have hsplit : ds = ds.take i ++ d :: ds.drop (i + 1) := by
    rw [← hget, ← List.drop_eq_getElem_cons hi, List.take_append_drop]
  have hlater : d.tableName ∉
      Entries.keys ((ds.drop (i + 1)).map fun d => (d.tableName, d)).reverse := by
    rw [Entries.keys, List.map_reverse, List.mem_reverse, List.map_map, List.mem_map]
    rintro ⟨d', hd', hname⟩
    obtain ⟨j, hj⟩ := List.getElem?_of_mem hd'
    rw [List.getElem?_drop] at hj
    exact hlast (i + 1 + j) d' (by omega) hj hname
  refine Entries.mem_of_get?_eq_some ?_
  rw [receiveAll_eq]
  change Entries.get? _ (List.foldl _ b.received _) = _
  rw [Entries.get?_foldl_put, hsplit, List.map_append, List.map_cons, List.reverse_append,
    List.reverse_cons, Entries.get?_append, Entries.get?_append,
    Entries.get?_eq_none_iff.mpr hlater, Option.none_or, Entries.get?_cons, if_pos rfl]
  rfl

/-! ### Compiled and built tables -/

variable {ε : Type} {settings : Settings} {schema : Fields} {virtual : List String}
  {create : List (Descriptor Nat) → Descriptor Nat → Except ε Nat}

/-- **The last table of a name is the one that is built** from what a schema compiles to. -/
theorem exists_built_of_last {b b' : Binding} (hreceived : b.received.Distinct)
    (hset : settings.IsValid) (hkeyed : schema.isKeyed = true) {binder : Binder Nat ε}
    {handles : Entries String Nat}
    (hok : (NestedTables.compile binder settings (.map schema)).result = .ok handles)
    (hbuild : (b.receiveAll
      (NestedTables.compile binder settings (.map schema)).tables).build = (b', .ok ()))
    {i : Nat} {t : Pointer × Tree} (ht : (Tree.ofFields schema).tables[i]? = some t)
    (hlast : ∀ j u, i < j → (Tree.ofFields schema).tables[j]? = some u →
      (u.2.fields.names settings).tableName ≠ (t.2.fields.names settings).tableName)
    (hnew : b.catalog.has (t.2.fields.names settings).tableName = false) :
    ∃ (d : Descriptor Nat) (keys : Entries String String) (columns : List Column),
      (NestedTables.compile binder settings (.map schema)).tables[i]? = some d ∧
      d.idColumn = (t.2.fields.names settings).idColumn ∧ d.build keys = .ok columns ∧
      b'.catalog.get? (t.2.fields.names settings).tableName = some columns := by
  obtain ⟨d, hd, hdescribes⟩ := exists_describing hset hkeyed hok ht
  have htable : d.tableName = (t.2.fields.names settings).tableName := hdescribes.tableName
  have hmem := mem_receiveAll_of_last b hd fun j d' hj hd' => by
    obtain ⟨u, hu, hdescribes'⟩ := exists_described hset hkeyed hok hd'
    rw [hdescribes'.tableName, htable]
    exact hlast j u hj hu
  obtain ⟨columns, hget, hbuilt⟩ := exists_built (distinct_receiveAll hreceived _) hbuild hmem
    (by rw [catalog_receiveAll, htable]; exact hnew)
  exact ⟨d, _, columns, hd, hdescribes.idColumn, hbuilt, htable ▸ hget⟩

/-- Whether a table has a column of a name, and it may not be null exactly on a condition. -/
def NotNullIff (columns : List Column) (name : String) (P : Prop) : Prop :=
  (∃ c ∈ columns, c.name = name) ∧ ∀ c ∈ columns, c.name = name → (c.nullable = false ↔ P)

/-- **What a node requires, in the table that is built from it.** When a schema has been compiled
and its tables have been built, and a table node is the last one of its name, then of its
properties that the database does not keep for itself

* one that is neither a table nor an array of tables has a column of its name, which may not be null
  exactly if it is the identity column or the node requires it;
* one that is a table has the column of its foreign key, which may not be null exactly if it is the
  identity column or the node requires the name of the foreign key.

No other column may not be null but for these reasons. -/
theorem compile_required {b b₁ b' : Binding} (hreceived : b.received.Distinct)
    (hset : settings.IsValid) (hkeyed : schema.isKeyed = true)
    {models : Entries String (Descriptor Nat)}
    (hcompile : b.compile virtual create settings (.map schema) = (b₁, .ok models))
    (hbuild : b₁.build = (b', .ok ())) {i : Nat} {t : Pointer × Tree}
    (ht : (Tree.ofFields schema).tables[i]? = some t)
    (hlast : ∀ j u, i < j → (Tree.ofFields schema).tables[j]? = some u →
      (u.2.fields.names settings).tableName ≠ (t.2.fields.names settings).tableName)
    (hnew : b.catalog.has (t.2.fields.names settings).tableName = false)
    {properties : Fields} (hproperties : t.2.fields.mapping? "properties" = some properties) :
    let names := t.2.fields.names settings
    ∃ columns, b'.catalog.get? names.tableName = some columns ∧
      (∀ r v, (.text r, v) ∈ properties → v.nodeKind ≠ .table → v.nodeKind ≠ .arrayOfTable →
        r ∉ virtual →
          NotNullIff columns r (r = names.idColumn ∨ t.2.fields.Requires settings r)) ∧
      (∀ r v, (.text r, v) ∈ properties → v.nodeKind = .table → r ++ "_id" ∉ virtual →
        NotNullIff columns (r ++ "_id")
          (r ++ "_id" = names.idColumn ∨ t.2.fields.Requires settings (r ++ "_id"))) ∧
      ∀ c ∈ columns, c.nullable = false →
        c.name = names.idColumn ∨ t.2.fields.Requires settings c.name := by
  intro names
  obtain ⟨rfl, handles, hok, -⟩ := compile_eq_ok hcompile
  obtain ⟨d, keys, columns, hd, hid, hbuilt, hget⟩ :=
    exists_built_of_last hreceived hset hkeyed hok hbuild ht hlast hnew
  obtain ⟨hkept, entries, hentries, hcolumns⟩ := exists_kept hset hkeyed hok ht hd
  obtain ⟨required, hrequired⟩ := Descriptor.exists_required_of_build hbuilt
  have hdescriptor : d.properties = .map entries := Descriptor.properties_eq hentries
  -- the descriptor requires what the node does
  have hnames : ∀ name, name ∈ required ↔ t.2.fields.Requires settings name := by
    intro name
    rw [Descriptor.mem_required_iff hrequired, Fields.Requires, Fields.value,
      hkept "required" (by decide) (by decide), Fields.value]
    cases settings.owns "required" with
    | false => simp
    | true => simpa using Value.not_requires_null name
  have hproperty : ∀ name, .text name ∈ Entries.keys entries →
      NotNullIff columns name (name = names.idColumn ∨ t.2.fields.Requires settings name) := by
    intro name hname
    refine ⟨Descriptor.exists_column_of_build hbuilt hdescriptor hrequired hname,
      fun c hc heq => ?_⟩
    rw [Descriptor.nullable_iff_of_build hbuilt hdescriptor hrequired hname hc heq, hid, hnames]
  refine ⟨columns, hget, fun r v hr hnot hnot' hvirtual => ?_,
    fun r v hr hkind hvirtual => ?_, fun c hc hnull => ?_⟩
  · refine hproperty r (hcolumns properties hproperties _ hr _ ?_ ?_)
    · unfold Walk.columnKey?
      split
      · next h => exact absurd h hnot
      · next h => exact absurd h hnot'
      · rfl
    · simpa [Walk.Setting.leaves] using hvirtual
  · refine hproperty (r ++ "_id") (hcolumns properties hproperties _ hr _ ?_ ?_)
    · rw [Walk.columnKey?, hkind]
      rfl
    · simpa [Walk.Setting.leaves] using hvirtual
  · rw [← hid, ← hnames]
    exact Descriptor.eq_or_mem_required_of_build hbuilt hdescriptor hrequired hc hnull

/-- An order that has to have a customer and a note, and may have a total. -/
def mandatorySchema : Fields :=
  [(.text "$id", .text "order"), (.text "required", .list [.text "customer", .text "note"]),
    (.text "properties", .object
      [("customer", .object [("$id", .text "customer")]),
        ("note", .object [("type", .text "string")]),
        ("total", .object [("type", .text "number")])])]

/-- The tables of the order when they have been built. -/
theorem exists_built_mandatorySchema : ∃ (b b' : Binding)
    (models : Entries String (Descriptor Nat)) (columns : List Column),
    compile {} [] (Binder.counting : Binder Nat Empty).create {} (.map mandatorySchema) =
        (b, .ok models) ∧
      b.build = (b', .ok ()) ∧ b'.catalog.get? "order" = some columns ∧
      columns.map (fun c => (c.name, c.nullable)) =
        [("id", false), ("customer_id", true), ("note", false), ("total", true)] := by
  obtain ⟨b, models, hcompile, hresult⟩ : ∃ b models,
      compile {} [] (Binder.counting : Binder Nat Empty).create {} (.map mandatorySchema) =
        (b, .ok models) ∧ b.build.2 = .ok () ∧
      (b.build.1.catalog.get? "order").map
          (fun columns => columns.map fun c => (c.name, c.nullable)) =
        some [("id", false), ("customer_id", true), ("note", false), ("total", true)] :=
    ⟨_, _, rfl, rfl, rfl⟩
  obtain ⟨columns, hget, hcolumns⟩ := Option.map_eq_some_iff.mp hresult.2
  exact ⟨b, b.build.1, models, columns, hcompile, Prod.ext rfl hresult.1, hget, hcolumns⟩

/-- **That a table is required can get lost**: the order has to have a customer, but the column of
its foreign key may be null. -/
theorem compile_required_lost : ∃ (b b' : Binding) (models : Entries String (Descriptor Nat))
    (columns : List Column),
    compile {} [] (Binder.counting : Binder Nat Empty).create {} (.map mandatorySchema) =
        (b, .ok models) ∧
      b.build = (b', .ok ()) ∧ b'.catalog.get? "order" = some columns ∧
      ¬ ∀ properties r v, mandatorySchema.mapping? "properties" = some properties →
        (.text r, v) ∈ properties → v.nodeKind = .table → mandatorySchema.Requires {} r →
          ∃ c ∈ columns, c.name = r ++ "_id" ∧ c.nullable = false := by
  obtain ⟨b, b', models, columns, hcompile, hbuild, hget, hcolumns⟩ := exists_built_mandatorySchema
  refine ⟨b, b', models, columns, hcompile, hbuild, hget, fun h => ?_⟩
  have hrequires : mandatorySchema.Requires {} "customer" :=
    ⟨by decide, [.text "customer", .text "note"], rfl, List.mem_cons_self⟩
  obtain ⟨c, hc, hname, hnull⟩ := h _ "customer" (.object [("$id", .text "customer")]) rfl
    List.mem_cons_self (by decide) hrequires
  have hmem : (c.name, c.nullable) ∈ columns.map fun c => (c.name, c.nullable) :=
    List.mem_map.mpr ⟨c, hc, rfl⟩
  rw [hcolumns, hname, hnull] at hmem
  revert hmem
  decide

/-- What the order requires, in its table. -/
theorem compile_required_order : ({} : Settings).IsValid ∧ mandatorySchema.isKeyed = true ∧
    ∃ (b b' : Binding) (models : Entries String (Descriptor Nat)) (columns : List Column),
      compile {} [] (Binder.counting : Binder Nat Empty).create {} (.map mandatorySchema) =
          (b, .ok models) ∧
        b.build = (b', .ok ()) ∧ b'.catalog.get? "order" = some columns ∧
        NotNullIff columns "note" ("note" = "id" ∨ mandatorySchema.Requires {} "note") ∧
        NotNullIff columns "customer_id"
          ("customer_id" = "id" ∨ mandatorySchema.Requires {} "customer_id") := by
  have hkeyed : mandatorySchema.isKeyed = true := by decide
  obtain ⟨b, b', models, columns, hcompile, hbuild, hget, -⟩ := exists_built_mandatorySchema
  have htables : (Tree.ofFields mandatorySchema).tables.map (·.1) =
      [[.text "properties", .text "customer"], []] := by
    rfl
  have hlast : ∀ (j : Nat) (u : Pointer × Tree), 1 < j →
      (Tree.ofFields mandatorySchema).tables[j]? = some u →
        (u.2.fields.names {}).tableName ≠ (mandatorySchema.names {}).tableName := by
    intro j u hj hu
    have hlt := (List.getElem?_eq_some_iff.mp hu).1
    rw [← List.length_map (f := (·.1)), htables] at hlt
    exact absurd hlt (Nat.not_lt.mpr hj)
  have hreceived : ({} : Binding).received.Distinct := List.nodup_nil
  obtain ⟨columns', hget', hdeclared, htable, -⟩ := compile_required (i := 1) hreceived
    Settings.isValid_default hkeyed hcompile hbuild (t := ([], Tree.ofFields mandatorySchema)) rfl
    hlast rfl rfl
  obtain rfl : columns = columns' := Option.some.inj (hget.symm.trans hget')
  exact ⟨Settings.isValid_default, hkeyed, b, b', models, columns, hcompile, hbuild, hget,
    hdeclared "note" _ (List.mem_cons_of_mem _ List.mem_cons_self) (by decide) (by decide)
      (by decide),
    htable "customer" _ List.mem_cons_self (by decide) (by decide)⟩

end Binding

end NestedTables
