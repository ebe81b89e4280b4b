import Mathlib.Data.List.Nodup
import NestedTables.Proofs.Binding.Building
import NestedTables.Proofs.Binding.Built

/-!
# Built tables

What a database makes of a descriptor follows from the descriptor and from the relations of all
received tables. A table has three groups of columns: its identity column, the columns of its
properties, and the columns that relations assign and that are neither. `Descriptor.Prescribes` says
what is in each group and how its columns look; and every table that is built is so prescribed
(`Binding.build_prescribes`).

The groups are put together in two places which leave out different things, so that no name is there
twice is a fact of its own. It rests on the properties being a mapping whose keys are texts.
-/

namespace NestedTables

variable {η : Type}

/-! ### The columns of properties -/

namespace Descriptor

variable {d : Descriptor η} {keys : Entries String String} {required : List String}
  {columns : List Column}

/-- Whether a column is that of a property of a table. -/
structure Declares (required : List String) (keys : Entries String String) (e : Scalar × Value)
    (c : Column) : Prop where
  name : c.name = e.1.plain
  isIdentity : c.isIdentity = false
  nullable : c.nullable = !required.contains e.1.plain
  refersTo : c.refersTo = keys.get? e.1.plain

/-- **The columns of properties**: one for each of them, except for the identity column. -/
theorem forall₂_declaredColumns {properties : Fields}
    (h : d.declaredColumns required keys properties = .ok columns) :
    List.Forall₂ (Declares required keys)
      (properties.filter fun e => e.1.plain ≠ d.idColumn) columns := by
  refine (forall₂_ofProperty h).imp fun e c hcolumn => ?_
  obtain ⟨hname, hidentity, hnullable, hrefers⟩ := Column.ofProperty_eq_ok hcolumn
  exact ⟨hname, hidentity, hnullable, hrefers⟩

theorem Declares.map_name {es : Fields} (h : List.Forall₂ (Declares required keys) es columns) :
    columns.map Column.name = es.map fun e => e.1.plain := by
  induction h with
  | nil => rfl
  | cons hc _ ih => rw [List.map_cons, List.map_cons, hc.name, ih]

/-- The columns that are required, if the schema has a list of them or none. -/
theorem required?_eq_some
    (h : d.schema.value? "required" = some (.list (required.map .text)) ∨
      d.schema.value? "required" = none ∧ required = []) : d.required? = some required := by
  unfold required? Fields.value
  rcases h with h | ⟨h, rfl⟩
  · rw [h]
    cases required with
    | nil => rfl
    | cons name names =>
      have hkeys : ((name :: names).map Value.text).all Value.canBeKey = true := by
        simp [Value.canBeKey]
      have htexts : ((name :: names).map Value.text).filterMap Value.text? = name :: names := by
        rw [List.filterMap_map]
        exact List.filterMap_some
      simp only [Option.getD_some, Value.truthy, Value.members?, hkeys, htexts]
      rfl
  · rw [h]
    rfl

/-! ### The columns of a table -/

/-- The columns that a table is to have. Its properties are those of its schema, `required` are the
names that the schema requires, and `as` is what all relations assign. -/
structure Prescribes (d : Descriptor η) (table : String) (as : Entries ColumnRef String)
    (properties : Fields) (required : List String) (columns : List Column) : Prop where
  /-- The identity column comes first, then the properties in their order, and then what is assigned
  to other columns of the table, each where that happens first. -/
  names : columns.map Column.name =
    d.idColumn :: ((properties.keys.map Scalar.plain).filter (· ≠ d.idColumn) ++
      (ForeignKeys.assigned table as).filter fun name =>
        .text name ∉ properties.keys ∧ name ≠ d.idColumn)
  distinct : (columns.map Column.name).Nodup
  identity : ∀ c ∈ columns, c.isIdentity = true ↔ c.name = d.idColumn
  /-- A property may be null unless it is required. -/
  nullable : ∀ c ∈ columns, .text c.name ∈ properties.keys → c.name ≠ d.idColumn →
    (c.nullable = true ↔ c.name ∉ required)
  /-- A column refers to what it has been assigned last, and to nothing if it has not been
  assigned anything. -/
  refersTo : ∀ c ∈ columns, c.name ≠ d.idColumn →
    c.refersTo = Entries.get? ⟨table, c.name⟩ as.reverse

/-- The names of properties are different. -/
theorem nodup_plain_keys {properties : Fields} (hdistinct : properties.Distinct)
    (htexts : ∀ e ∈ properties, e.1.isText = true) : (properties.keys.map Scalar.plain).Nodup := by
  refine List.Nodup.map_on (fun k hk k' hk' heq => ?_) hdistinct
  obtain ⟨e, he, rfl⟩ := List.mem_map.mp hk
  obtain ⟨e', he', rfl⟩ := List.mem_map.mp hk'
  obtain ⟨s, hs⟩ := Scalar.isText_iff.mp (htexts e he)
  obtain ⟨s', hs'⟩ := Scalar.isText_iff.mp (htexts e' he')
  rw [hs, hs'] at heq ⊢
  exact congrArg Scalar.text heq

/-- A table that is built, when it is known what its schema requires. -/
theorem exists_declared_of_build {properties : Fields} (h : d.build keys = .ok columns)
    (hproperties : d.properties = .map properties) (hrequired : d.required? = some required) :
    ∃ declared, d.declaredColumns required keys properties = .ok declared ∧
      columns = .identity d.idColumn :: declared ++ d.addedColumns keys := by
  unfold build at h
  rw [hrequired, hproperties] at h
  simp only [Value.fields?] at h
  split at h
  · cases h
  · next declared hdeclared =>
    split at h
    · cases h
    · exact ⟨declared, hdeclared, (Except.ok.inj h).symm⟩

/-- The added columns are those of the foreign keys that are neither properties nor the identity
column. -/
theorem mem_addedColumns {properties : Fields} (hproperties : d.properties = .map properties)
    {c : Column} (hc : c ∈ d.addedColumns keys) :
    ∃ e ∈ keys, .text e.1 ∉ properties.keys ∧ e.1 ≠ d.idColumn ∧ c = .reference e.1 e.2 := by
  obtain ⟨e, he, rfl⟩ := List.mem_map.mp hc
  obtain ⟨hmem, hkeep⟩ := List.mem_filter.mp he
  rw [Descriptor.columns, hproperties, Value.fields?, Option.getD_some] at hkeep
  simp only [Bool.and_eq_true, Bool.not_eq_true', decide_eq_true_eq, Bool.eq_false_iff, ne_eq,
    Entries.has_iff] at hkeep
  exact ⟨e, hmem, hkeep.1, hkeep.2, rfl⟩

theorem map_name_addedColumns {properties : Fields} (hproperties : d.properties = .map properties) :
    (d.addedColumns keys).map Column.name =
      keys.keys.filter fun name => .text name ∉ properties.keys ∧ name ≠ d.idColumn := by
  have hkeep : ∀ e : String × String, (!d.columns.has (.text e.1) && e.1 ≠ d.idColumn) =
      decide (.text e.1 ∉ properties.keys ∧ e.1 ≠ d.idColumn) := by
    intro e
    rw [Descriptor.columns, hproperties, Value.fields?, Option.getD_some, Bool.eq_iff_iff]
    simp [Entries.has_iff, Bool.eq_false_iff]
  have hkeys : keys.keys = keys.map (·.1) := rfl
  rw [addedColumns, List.map_map, hkeys, List.filter_map]
  simp only [hkeep]
  rfl

/-- The group that a column of a table is in. -/
inductive Grouped (d : Descriptor η) (properties : Fields) (required : List String)
    (keys : Entries String String) : Column → Prop
  | identity : Grouped d properties required keys (.identity d.idColumn)
  | declared {e : Scalar × Value} {c : Column} (he : e ∈ properties)
      (hne : e.1.plain ≠ d.idColumn) (hc : Declares required keys e c) :
      Grouped d properties required keys c
  | added {e : String × String} (he : e ∈ keys) (hnot : .text e.1 ∉ properties.keys)
      (hne : e.1 ≠ d.idColumn) : Grouped d properties required keys (.reference e.1 e.2)

section Build

variable {properties : Fields} (h : d.build keys = .ok columns)
  (hproperties : d.properties = .map properties) (hrequired : d.required? = some required)
include h hproperties hrequired

/-- Every column of a table is in one of the groups. -/
theorem grouped_of_build {c : Column} (hc : c ∈ columns) :
    d.Grouped properties required keys c := by
  obtain ⟨declared, hdeclared, rfl⟩ := exists_declared_of_build h hproperties hrequired
  rw [List.cons_append, List.mem_cons, List.mem_append] at hc
  rcases hc with rfl | hc | hc
  · exact .identity
  · obtain ⟨e, he, hdeclares⟩ :=
      exists_mem_of_forall₂_left (forall₂_declaredColumns hdeclared).flip hc
    obtain ⟨hmem, hne⟩ := List.mem_filter.mp he
    exact .declared hmem (by simpa using hne) hdeclares
  · obtain ⟨e, he, hnot, hne, rfl⟩ := mem_addedColumns hproperties hc
    exact .added he hnot hne

/-- The groups come one after the other. -/
theorem map_name_of_build : columns.map Column.name =
    d.idColumn :: ((properties.keys.map Scalar.plain).filter (· ≠ d.idColumn) ++
      keys.keys.filter fun name => .text name ∉ properties.keys ∧ name ≠ d.idColumn) := by
  obtain ⟨declared, hdeclared, rfl⟩ := exists_declared_of_build h hproperties hrequired
  rw [List.map_append, List.map_cons, Declares.map_name (forall₂_declaredColumns hdeclared),
    map_name_addedColumns hproperties, Entries.keys, List.map_map, List.filter_map]
  rfl

end Build

/-- The groups have no names in common. -/
theorem nodup_names {properties : Fields} (hdistinct : properties.Distinct)
    (htexts : ∀ e ∈ properties, e.1.isText = true) {names : List String} (hnames : names.Nodup)
    (id : String) : (id :: ((properties.keys.map Scalar.plain).filter (· ≠ id) ++
      names.filter fun name => .text name ∉ properties.keys ∧ name ≠ id)).Nodup := by
  rw [List.nodup_cons, List.nodup_append]
  refine ⟨by simp, (nodup_plain_keys hdistinct htexts).filter _, hnames.filter _, ?_⟩
  rintro name hname _ hname' rfl
  obtain ⟨k, hk, rfl⟩ := List.mem_map.mp (List.mem_filter.mp hname).1
  obtain ⟨e, he, rfl⟩ := List.mem_map.mp hk
  obtain ⟨s, hs⟩ := Scalar.isText_iff.mp (htexts e he)
  have hnot := (List.mem_filter.mp hname').2
  simp only [hs, decide_eq_true_eq] at hnot
  exact hnot.1 (hs ▸ hk)

/-- **A table that is built has the columns that it is to have**, if its foreign keys are what has
been assigned. -/
theorem prescribes_of_build {table : String} {as : Entries ColumnRef String} {properties : Fields}
    (h : d.build keys = .ok columns) (hproperties : d.properties = .map properties)
    (hdistinct : properties.Distinct) (htexts : ∀ e ∈ properties, e.1.isText = true)
    (hrequired : d.required? = some required) (hkeys : keys.Distinct)
    (hassigned : Entries.keys keys = ForeignKeys.assigned table as)
    (hlast : ∀ name, keys.get? name = Entries.get? ⟨table, name⟩ as.reverse) :
    d.Prescribes table as properties required columns := by
  have hnames := map_name_of_build h hproperties hrequired
  have hgroups : ∀ c ∈ columns, d.Grouped properties required keys c := fun _ hc =>
    grouped_of_build h hproperties hrequired hc
  refine ⟨hassigned ▸ hnames, ?_, fun c hc => ?_, fun c hc hproperty hid => ?_, fun c hc hid => ?_⟩
  · rw [hnames]
    exact nodup_names hdistinct htexts hkeys _
  · cases hgroups c hc with
    | identity => exact iff_of_true rfl rfl
    | declared _ hne hdeclares =>
      rw [hdeclares.isIdentity, hdeclares.name]
      exact iff_of_false (by simp) hne
    | added _ _ hne => exact iff_of_false (by simp [Column.reference]) hne
  · cases hgroups c hc with
    | identity => exact absurd rfl hid
    | declared _ _ hdeclares =>
      rw [hdeclares.nullable, hdeclares.name]
      simp
    | added _ hnot _ => exact absurd hproperty hnot
  · rw [← hlast]
    cases hgroups c hc with
    | identity => exact absurd rfl hid
    | declared _ _ hdeclares => rw [hdeclares.refersTo, hdeclares.name]
    | added he _ _ => exact (Entries.get?_eq_some_of_mem hkeys he).symm

end Descriptor

/-! ### The tables of a database -/

namespace Binding

/-- What the relations of all received tables assign, in the order of the tables. -/
def assignments (b : Binding) : Entries ColumnRef String :=
  ForeignKeys.assignments b.belongsToOne b.hasMany (b.received.map (·.2))

/-- A table that is received and not there yet is built when the building succeeds. -/
theorem exists_built {b b' : Binding} (hreceived : b.received.Distinct)
    (hbuild : b.build = (b', .ok ())) {table : String} {d : Descriptor Nat}
    (hd : (table, d) ∈ b.received) (hnew : b.catalog.has table = false) :
    ∃ columns, b'.catalog.get? table = some columns ∧
      d.build (b.foreignKeys.ofTable table) = .ok columns := by
  obtain ⟨built, hincrement⟩ := exists_increment hreceived
  have hkeys : Entries.keys built = Entries.keys b.pending :=
    hincrement.finished (by rw [hbuild])
  have hpending : (table, d) ∈ b.pending := List.mem_filter.mpr ⟨hd, by simp [hnew]⟩
  have hkey : table ∈ Entries.keys built := hkeys ▸ List.mem_map.mpr ⟨_, hpending, rfl⟩
  obtain ⟨t, ht, rfl⟩ := List.mem_map.mp hkey
  obtain ⟨d', hd', hcolumns⟩ := hincrement.whole t ht
  obtain rfl := Option.some.inj (hd'.symm.trans (Entries.get?_eq_some_of_mem hreceived hd))
  refine ⟨t.2, ?_, hcolumns⟩
  have hdistinct : Entries.Distinct built := by
    rw [Entries.Distinct, hkeys]
    exact hreceived.filter _
  have hnone : b.catalog.get? t.1 = none :=
    Option.isNone_iff_eq_none.mp (by simpa [Entries.has] using hnew)
  have hcatalog : b'.catalog = b.catalog ++ built := by
    have hfst := hincrement.build_fst
    rw [hbuild] at hfst
    exact congrArg Binding.catalog hfst
  rw [hcatalog, Entries.get?_append, hnone, Option.none_or,
    Entries.get?_eq_some_of_mem hdistinct ht]

/-- Whether a relation of a received table makes a column refer to something. -/
def Assigned (b : Binding) (c : ColumnRef) : Prop :=
  ∃ t ∈ b.received, ∃ e ∈ t.2.relations, ∃ source text,
    e.2.Assigns b.belongsToOne b.hasMany source text ∧ ColumnRef.ofText? source = some c ∧
      (ColumnRef.ofText? text).isSome = true

theorem assigned_iff {b : Binding} {c : ColumnRef} :
    b.Assigned c ↔ c ∈ Entries.keys b.assignments := by
  simp only [Assigned, assignments, ForeignKeys.assignments, Entries.keys, List.mem_map,
    List.mem_flatMap]
  constructor
  · rintro ⟨t, ht, e, he, source, text, h⟩
    exact ⟨(c, text), ⟨t.2, ⟨t, ht, rfl⟩, e, he, Relation.mem_assignments_iff.mpr ⟨source, h⟩⟩, rfl⟩
  · rintro ⟨⟨_, text⟩, ⟨_, ⟨t, ht, rfl⟩, e, he, hassigns⟩, rfl⟩
    obtain ⟨source, h⟩ := Relation.mem_assignments_iff.mp hassigns
    exact ⟨t, ht, e, he, source, text, h⟩

/-- **Built tables are what the relations prescribe.** Of a database that has received some tables
and builds them with success, every table that was not there before has its identity column, then
the columns of its properties, then those that relations assign. Its columns refer to what they have
been assigned last, and a column other than the identity column does refer to something exactly if
some relation assigns it. -/
theorem build_prescribes {b b' : Binding} (hfresh : b.received = []) {ds : List (Descriptor Nat)}
    (hbuild : (b.receiveAll ds).build = (b', .ok ())) {table : String} {d : Descriptor Nat}
    (hd : (table, d) ∈ (b.receiveAll ds).received) (hnew : b.catalog.has table = false)
    {properties : Fields} (hproperties : d.properties = .map properties)
    (hdistinct : properties.Distinct) (htexts : ∀ e ∈ properties, e.1.isText = true)
    {required : List String}
    (hrequired : d.schema.value? "required" = some (.list (required.map .text)) ∨
      d.schema.value? "required" = none ∧ required = []) :
    ∃ columns, b'.catalog.get? table = some columns ∧
      d.Prescribes table (b.receiveAll ds).assignments properties required columns ∧
      ∀ c ∈ columns, c.name ≠ d.idColumn →
        (c.refersTo.isSome = true ↔ (b.receiveAll ds).Assigned ⟨table, c.name⟩) := by
  have hreceived : (b.receiveAll ds).received.Distinct :=
    distinct_receiveAll (by rw [hfresh]; exact List.nodup_nil) ds
  have hkeys : ((b.receiveAll ds).foreignKeys.ofTable table).Distinct := by
    rw [foreignKeys, ForeignKeys.ofTable_ofModel]
    exact Entries.distinct_ofPairs _
  obtain ⟨columns, hget, hbuilt⟩ :=
    exists_built hreceived hbuild hd ((catalog_receiveAll b ds).symm ▸ hnew)
  have hprescribes : d.Prescribes table (b.receiveAll ds).assignments properties required columns :=
    Descriptor.prescribes_of_build hbuilt hproperties hdistinct htexts
      (Descriptor.required?_eq_some hrequired) hkeys
      (ForeignKeys.keys_ofTable_ofModel _ _ _ _)
      fun name => ForeignKeys.get?_ofTable_ofModel _ _ _ ⟨table, name⟩
  refine ⟨columns, hget, hprescribes, fun c hc hid => ?_⟩
  rw [hprescribes.refersTo c hc hid, assigned_iff, ← Entries.mem_keys_iff, Entries.keys,
    List.map_reverse, List.mem_reverse]
  rfl

/-- The loans of a library. Books assign two columns of a loan, one of which is its identity, and a
loan assigns one of its properties and the column that the book has assigned already. -/
def loan : Descriptor Nat where
  modelName := "Loan"
  tableName := "loan"
  schema := [(.text "properties", .object
      [("id", .object [("type", .text "string")]), ("due", .object [("type", .text "string")]),
        ("reader_id", .object [("type", .text "integer")])]),
    (.text "required", .list [.text "due"])]
  relations :=
    [("reader", ⟨.text "BelongsToOneRelation", "reader", none, some "loan.reader_id", "reader.id",
        none⟩),
      ("book", ⟨.text "BelongsToOneRelation", "book", none, some "loan.book_id", "book.isbn",
        none⟩)]

def library : List (Descriptor Nat) :=
  [{ modelName := "Reader", tableName := "reader" },
    { modelName := "Book", tableName := "book", relations :=
      [("loans", ⟨.text "HasManyRelation", "loan", none, some "book.id", "loan.book_id", none⟩),
        ("copies", ⟨.text "HasManyRelation", "loan", none, some "book.id", "loan.id", none⟩)] },
    loan]

/-- The loans are built with the book as their last column, and that refers to what the loan says of
it. -/
theorem build_prescribes_library : ∃ (b' : Binding) (columns : List Column),
    (receiveAll {} library).build = (b', .ok ()) ∧ b'.catalog.get? "loan" = some columns ∧
      loan.Prescribes "loan" (receiveAll {} library).assignments loan.columns ["due"] columns ∧
      columns.map (fun c => (c.name, c.nullable, c.refersTo)) =
        [("id", false, none), ("due", false, none), ("reader_id", true, some "reader.id"),
          ("book_id", true, some "book.isbn")] := by
  have hbuild : (receiveAll {} library).build = ((receiveAll {} library).build.1, .ok ()) :=
    Prod.ext rfl (build_eq_ok_of_toOption (by decide +kernel))
  have hd : ("loan", loan) ∈ (receiveAll {} library).received := by
    rw [receiveAll_of_nodup rfl (by decide)]
    exact .tail _ (.tail _ (.head _))
  have hproperties : loan.properties = .map loan.columns := rfl
  have hdistinct : loan.columns.Distinct := (by decide : (Entries.keys loan.columns).Nodup)
  have hrequired : loan.schema.value? "required" = some (.list (["due"].map .text)) ∨
      loan.schema.value? "required" = none ∧ ["due"] = [] := .inl rfl
  obtain ⟨columns, hget, hprescribes, -⟩ :=
    build_prescribes rfl hbuild hd rfl hproperties hdistinct (by decide) hrequired
  have hshown : ((receiveAll {} library).build.1.catalog.get? "loan").map
      (fun columns => columns.map fun c => (c.name, c.nullable, c.refersTo)) =
        some [("id", false, none), ("due", false, none), ("reader_id", true, some "reader.id"),
          ("book_id", true, some "book.isbn")] := by
    decide +kernel
  rw [hget] at hshown
  exact ⟨_, columns, hbuild, hget, hprescribes, Option.some.inj hshown⟩

end Binding

end NestedTables
