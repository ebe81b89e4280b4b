import NestedTables.Proofs.Binding.Built
import NestedTables.Proofs.Compile.TableNames
import NestedTables.Proofs.Override.WellAnnotated
import NestedTables.Proofs.Schema.Way

/-!
# Joins of compiled tables

The condition of a join compares columns of two tables, or of three. Here it is shown that they
are all there when a compiled schema has been built (`Binding.compile_joins`): a reference in a
relation leads either to the identity column of a table, or to a column that the same relation
makes a foreign key; and both are promised by the binding (`Binding.Promises`), in whatever way the
properties of the tables came about.

Four things can stand between a relation and its join, and `Fields.Joinable` excludes them: two
tables of one name, of which only the last is kept; names with dots, which make references
ambiguous; a table deeper inside an embedded object, since the foreign key to it is no column; and
the name of a column in a table that is not there.
-/

namespace NestedTables

/-! ### Join conditions -/

/-- The columns that a join condition compares. -/
def JoinCondition.columns : JoinCondition → List ColumnRef
  | .equal left right => [left, right]
  | .both first second => first.columns ++ second.columns

namespace JoinCondition

variable {P : ColumnRef → Prop}

theorem forall_columns_equal {left right : ColumnRef} :
    (∀ c ∈ (equal left right).columns, P c) ↔ P left ∧ P right := by
  simp [columns]

theorem forall_columns_both {first second : JoinCondition} :
    (∀ c ∈ (both first second).columns, P c) ↔
      (∀ c ∈ first.columns, P c) ∧ ∀ c ∈ second.columns, P c := by
  simp [columns, or_imp, forall_and]

end JoinCondition

/-- The column of its own table that a relation joins. -/
def Relation.own? {η : Type} (r : Relation η) : Option ColumnRef :=
  r.joinFrom.bind ColumnRef.ofText?

/-- Whether a condition is the one that a relation asks for: that its own column is the one that
it leads to, or that both are columns of one row of its join table. -/
inductive Relation.JoinedBy {η : Type} (r : Relation η) : JoinCondition → Prop
  | directly {own other : ColumnRef} (hthrough : r.through = none) (hown : r.own? = some own)
      (hother : ColumnRef.ofText? r.joinTo = some other) : JoinedBy r (.equal own other)
  | through {t : Through} {own source target other : ColumnRef} (hthrough : r.through = some t)
      (hown : r.own? = some own) (hsource : ColumnRef.ofText? t.source = some source)
      (htarget : ColumnRef.ofText? t.target = some target)
      (hother : ColumnRef.ofText? r.joinTo = some other) :
      JoinedBy r (.both (.equal own source) (.equal target other))

variable {η : Type}

/-- **A relation whose columns are there can be joined**, and the database is left as it is. -/
theorem Descriptor.finds_joinCondition {d : Descriptor η} {name : String} {r : Relation η}
    (hget : d.relations.get? name = some r) {condition : JoinCondition}
    (hjoined : r.JoinedBy condition) {b : Binding}
    (hcolumns : ∀ c ∈ condition.columns, b.HasColumn c) :
    (d.joinCondition name).Finds b condition := by
  unfold joinCondition
  refine (Lookup.Finds.orFault hget _).bind ?_
  cases hjoined with
  | directly hthrough hown hother =>
    obtain ⟨hasOwn, hasOther⟩ := JoinCondition.forall_columns_equal.mp hcolumns
    obtain ⟨text, hjoinFrom, hown⟩ := Option.bind_eq_some_iff.mp hown
    refine (Lookup.Finds.orFault hjoinFrom _).bind ((Lookup.Finds.columnRef hasOwn hown).bind ?_)
    rw [hthrough]
    exact (Lookup.Finds.columnRef hasOther hother).bind (.pure b _)
  | through hthrough hown hsource htarget hother =>
    obtain ⟨hfirst, hsecond⟩ := JoinCondition.forall_columns_both.mp hcolumns
    obtain ⟨hasOwn, hasSource⟩ := JoinCondition.forall_columns_equal.mp hfirst
    obtain ⟨hasTarget, hasOther⟩ := JoinCondition.forall_columns_equal.mp hsecond
    obtain ⟨text, hjoinFrom, hown⟩ := Option.bind_eq_some_iff.mp hown
    refine (Lookup.Finds.orFault hjoinFrom _).bind ((Lookup.Finds.columnRef hasOwn hown).bind ?_)
    rw [hthrough]
    exact (Lookup.Finds.columnRef hasSource hsource).bind
      ((Lookup.Finds.columnRef hasTarget htarget).bind
        ((Lookup.Finds.columnRef hasOther hother).bind (.pure b _)))

/-! ### What relations need -/

namespace Binding

variable {b : Binding} {table : String} {d : Descriptor Nat} {e : String × Relation Nat}
  {own source target other : ColumnRef}

/-- Whether a relation can be joined by columns that are promised. -/
def Joins (b : Binding) (r : Relation Nat) : Prop :=
  ∃ condition, r.JoinedBy condition ∧ ∀ c ∈ condition.columns, b.Promises c

/-- A relation to one is joined by its foreign key. -/
theorem joins_toOne (hd : (table, d) ∈ b.received) (he : e ∈ d.relations)
    (hkind : e.2.kind.same b.belongsToOne = true) (hthrough : e.2.through = none)
    (hown : e.2.own? = some own) (hother : ColumnRef.ofText? e.2.joinTo = some other)
    (htable : ∃ d', (own.table, d') ∈ b.received) (hpromised : b.Promises other) :
    b.Joins e.2 := by
  obtain ⟨text, hjoinFrom, htext⟩ := Option.bind_eq_some_iff.mp hown
  have hsaid : (text, e.2.joinTo) ∈ ForeignKeys.saidBy b.belongsToOne b.hasMany e.2 := by
    simp [ForeignKeys.saidBy, hthrough, hkind, hjoinFrom]
  have hkey := promises_of_said hd he hsaid htext hother htable
  exact ⟨_, .directly hthrough hown hother,
    JoinCondition.forall_columns_equal.mpr ⟨hkey, hpromised⟩⟩

/-- A relation to many is joined by the foreign key of the other table. -/
theorem joins_toMany (hd : (table, d) ∈ b.received) (he : e ∈ d.relations)
    (hne : e.2.kind.same b.belongsToOne = false) (hkind : e.2.kind.same b.hasMany = true)
    (hthrough : e.2.through = none) (hown : e.2.own? = some own)
    (hother : ColumnRef.ofText? e.2.joinTo = some other) (hpromised : b.Promises own)
    (htable : ∃ d', (other.table, d') ∈ b.received) : b.Joins e.2 := by
  obtain ⟨text, hjoinFrom, htext⟩ := Option.bind_eq_some_iff.mp hown
  have hsaid : (e.2.joinTo, text) ∈ ForeignKeys.saidBy b.belongsToOne b.hasMany e.2 := by
    simp [ForeignKeys.saidBy, hthrough, hne, hkind, hjoinFrom]
  have hkey := promises_of_said hd he hsaid hother htext htable
  exact ⟨_, .directly hthrough hown hother,
    JoinCondition.forall_columns_equal.mpr ⟨hpromised, hkey⟩⟩

/-- A relation through a join table is joined by the two foreign keys of that. -/
theorem joins_through (hd : (table, d) ∈ b.received) (he : e ∈ d.relations) {t : Through}
    (hthrough : e.2.through = some t) (hown : e.2.own? = some own)
    (hother : ColumnRef.ofText? e.2.joinTo = some other)
    (hsource : ColumnRef.ofText? t.source = some source)
    (htarget : ColumnRef.ofText? t.target = some target) (hpromised : b.Promises own)
    (hpromised' : b.Promises other) (htable : ∃ d', (source.table, d') ∈ b.received)
    (heq : source.table = target.table) : b.Joins e.2 := by
  obtain ⟨text, hjoinFrom, htext⟩ := Option.bind_eq_some_iff.mp hown
  have hsaid : ForeignKeys.saidBy b.belongsToOne b.hasMany e.2 =
      [(t.source, text), (t.target, e.2.joinTo)] := by
    simp [ForeignKeys.saidBy, hthrough, hjoinFrom]
  have hfirst := promises_of_said hd he (hsaid ▸ List.mem_cons_self) hsource htext htable
  have hsecond := promises_of_said hd he
    (hsaid ▸ List.mem_cons_of_mem _ (List.mem_singleton_self _)) htarget hother (heq ▸ htable)
  exact ⟨_, .through hthrough hown hsource htarget hother, JoinCondition.forall_columns_both.mpr
    ⟨JoinCondition.forall_columns_equal.mpr ⟨hpromised, hfirst⟩,
      JoinCondition.forall_columns_equal.mpr ⟨hsecond, hpromised'⟩⟩⟩

end Binding

/-! ### What is asked of a schema -/

/-- Whether two kinds of relations can be told apart: each is the same as itself, and they are not
the same. -/
structure Value.Apart (one many : Value) : Prop where
  one_same : one.same one = true
  many_same : many.same many = true
  differ : many.same one = false

/-- Different texts can be told apart. -/
theorem Value.apart_text {one many : String} (h : one ≠ many) :
    (Value.text one).Apart (.text many) where
  one_same := by simp [Value.same, Scalar.same]
  many_same := by simp [Value.same, Scalar.same]
  differ := by simp [Value.same, Scalar.same, Ne.symm h]

/-- What a schema has to keep to if all its relations are to be joined, once its tables have been
received. -/
structure Fields.Joinable (schema : Fields) (settings : Settings)
    (received : Entries String (Descriptor Nat)) : Prop where
  /-- The tables have different names. -/
  names : ((Tree.ofFields schema).tables.map fun t =>
    (t.2.fields.names settings).tableName).Nodup
  /-- Neither the name of a table nor that of an identity column has a dot. -/
  dotless : ∀ t ∈ (Tree.ofFields schema).tables,
    '.' ∉ (t.2.fields.names settings).tableName.toList ∧
      '.' ∉ (t.2.fields.names settings).idColumn.toList
  /-- A table that becomes a relation to one is a property of the table around it, and not of an
  embedded object; the name of the property has no dot. -/
  properties : ∀ t ∈ (Tree.ofFields schema).tables, ∀ s ∈ t.2.sites,
    s.child.fields.isTable = true → s.way = [] ∧ '.' ∉ s.name.toList
  /-- An array of tables that becomes a relation to many, and names the column that it is joined by,
  names one of a table that has been received. -/
  joinTo : ∀ t ∈ (Tree.ofFields schema).tables, ∀ s ∈ t.2.sites, s.child.fields.isTable = false →
    ∀ r ∈ ((settings.override? .joinToColumn s.child.fields).bind Value.text?).bind
      ColumnRef.ofText?, received.has r.table = true

/-- What a site leads to is a table of the schema. -/
theorem Tree.exists_target {schema : Fields} (hkeyed : schema.isKeyed = true) {t : Pointer × Tree}
    (ht : t ∈ (ofFields schema).tables) {s : Site} (hs : s ∈ t.2.sites) :
    ∃ t' ∈ (ofFields schema).tables, t'.2.fields = s.target := by
  obtain ⟨u, table, hdown, -, rfl⟩ := (mem_tables_iff_down? hkeyed).mp ht
  obtain ⟨hpath, htable, -⟩ := Site.down?_path (Fields.isKeyed_of_down? hkeyed hdown) hs
  refine ⟨_, (mem_tables_iff_down? hkeyed).mpr ⟨u ++ s.path, s.target, ?_, htable, rfl⟩, rfl⟩
  rw [Fields.down?_append, hdown]
  exact hpath

/-- The relation at a site that is a property of the table itself, and a table. -/
theorem Site.relation_of_isTable {θ ε : Type} {setting : Walk.Setting η ε} {owner : Context}
    {s : Site} (h : s.child.fields.isTable = true) (hway : s.way = []) :
    (s.relation setting owner : Relation θ) =
      { kind := setting.binder.belongsToOne
        targetTable := (s.target.names setting.settings).tableName
        joinFrom := some (ColumnRef.mk owner.tablePath (s.name ++ "_id")).written
        joinTo := s.target.idPath setting.settings } := by
  rw [relation, if_pos h, hway]
  rfl

/-- An array that is joined by a column that it names has the override. -/
theorem Fields.joinToColumn_of_join {settings : Settings} {array : Fields} {owner ref : String}
    (h : array.join settings owner = .column ref) :
    (settings.override? .joinToColumn array).bind Value.text? = some ref := by
  unfold join at h
  split at h
  · next href => rw [href, Walk.Join.column.inj h]
  · simp at h
  · simp at h

/-- The column that an array names is a reference, or the rules would not have accepted it. -/
theorem Override.exists_reference_of_joinToColumn {settings : Settings} {tables : List String}
    {node : Fields} (hnode : NoErrors settings tables node) {ref : String}
    (h : (settings.override? .joinToColumn node).bind Value.text? = some ref) :
    ∃ r, ColumnRef.ofText? ref = some r := by
  obtain ⟨v, hv, htext⟩ := Option.bind_eq_some_iff.mp h
  have hmem : Override.joinToColumn ∈ textual := by decide
  obtain ⟨s, rfl, -, hwritten⟩ := textComplaint?_eq_none_iff.mp (hnode.texts _ hmem) v hv
  obtain rfl : s = ref := Option.some.inj htext
  exact ColumnRef.exists_ofText?_iff.mpr (hwritten rfl)

/-- The name of a foreign key can be a part of a reference, whatever it refers to. -/
theorem ColumnRef.isPart_flatten (r : ColumnRef) : IsPart (flatten r.written) := by
  constructor
  · intro h
    have hlist := congrArg String.toList h
    rw [toList_flatten_written] at hlist
    simp at hlist
  · rw [flatten, String.toList_ofList, List.mem_map]
    rintro ⟨c, -, hc⟩
    split at hc
    · simp at hc
    · next hne => exact hne hc

/-! ### Relations with both their ends -/

section Links

variable {ε : Type} {setting : Walk.Setting Nat ε} {b : Binding} {owner : Tree} {s : Site}
  {d : Descriptor Nat} {e : String × Relation Nat}

/-- A relation of a table that has been received, with the site that it stands for. Both ends have
names that make references, and their identity columns are promised. -/
structure Binding.Link (b : Binding) (setting : Walk.Setting Nat ε) (owner : Tree) (s : Site)
    (d : Descriptor Nat) (e : String × Relation Nat) : Prop where
  received : (d.tableName, d) ∈ b.received
  mem : e ∈ d.relations
  relation : s.relation setting (owner.context setting.settings) = e.2.withoutTarget (θ := Unit)
  own : b.Promises (owner.fields.idRef setting.settings)
  target : b.Promises (s.target.idRef setting.settings)
  ownParts : ColumnRef.IsPart (owner.fields.idRef setting.settings).table ∧
    ColumnRef.IsPart (owner.fields.idRef setting.settings).column
  targetParts : ColumnRef.IsPart (s.target.idRef setting.settings).table ∧
    ColumnRef.IsPart (s.target.idRef setting.settings).column

namespace Binding.Link

theorem ofText?_own (h : b.Link setting owner s d e) :
    ColumnRef.ofText? (owner.fields.idPath setting.settings) =
      some (owner.fields.idRef setting.settings) :=
  (ColumnRef.ofText?_eq_some_iff ..).mpr ⟨rfl, h.ownParts⟩

theorem ofText?_target (h : b.Link setting owner s d e) :
    ColumnRef.ofText? (s.target.idPath setting.settings) =
      some (s.target.idRef setting.settings) :=
  (ColumnRef.ofText?_eq_some_iff ..).mpr ⟨rfl, h.targetParts⟩

/-- A table under a property of its owner is joined by the foreign key that takes its place. -/
theorem joins_of_isTable (h : b.Link setting owner s d e)
    (hone : setting.binder.belongsToOne = b.belongsToOne)
    (hapart : b.belongsToOne.Apart b.hasMany) (htable : s.child.fields.isTable = true)
    (hway : s.way = []) (hdot : '.' ∉ s.name.toList) : b.Joins e.2 := by
  have hrelation := h.relation
  rw [Site.relation_of_isTable htable hway] at hrelation
  have hkind : e.2.kind = b.belongsToOne := (congrArg Relation.kind hrelation).symm.trans hone
  have hkey : ColumnRef.IsPart (s.name ++ "_id") := ⟨by simp, by simpa using hdot⟩
  have hown : e.2.own? =
      some ⟨(owner.fields.idRef setting.settings).table, s.name ++ "_id"⟩ :=
    Option.bind_eq_some_iff.mpr ⟨_, (congrArg Relation.joinFrom hrelation).symm,
      (ColumnRef.ofText?_eq_some_iff ..).mpr ⟨rfl, h.ownParts.1, hkey⟩⟩
  have hother : ColumnRef.ofText? e.2.joinTo = some (s.target.idRef setting.settings) :=
    (congrArg ColumnRef.ofText? (congrArg Relation.joinTo hrelation).symm).trans h.ofText?_target
  obtain ⟨d', hd', -⟩ := h.own
  exact joins_toOne h.received h.mem (hkind ▸ hapart.one_same)
    (congrArg Relation.through hrelation).symm hown hother ⟨d', hd'⟩ h.target

/-- An array of tables is joined in one of three ways, and by the identity column of its owner in
all of them. -/
theorem joins_of_not_isTable (h : b.Link setting owner s d e)
    (hmany : setting.binder.hasMany = b.hasMany) (hapart : b.belongsToOne.Apart b.hasMany)
    (htable : s.child.fields.isTable = false) {tables : List String}
    (hnode : Override.NoErrors setting.settings tables s.child.fields)
    (hjoinTo : ∀ r ∈ ((setting.settings.override? .joinToColumn s.child.fields).bind
      Value.text?).bind ColumnRef.ofText?, b.received.has r.table = true)
    (hthrough : ∀ t, e.2.through = some t → ∃ source target, ColumnRef.ofText? t.source =
      some source ∧ ColumnRef.ofText? t.target = some target ∧ source.table = target.table ∧
        b.received.has source.table = true) : b.Joins e.2 := by
  have hrelation := h.relation
  rw [Site.relation, if_neg (by simp [htable])] at hrelation
  have hkind : e.2.kind = b.hasMany := (congrArg Relation.kind hrelation).symm.trans hmany
  have hother := (congrArg Relation.joinTo hrelation).symm
  have hjoin := (congrArg Relation.through hrelation).symm
  have hown : e.2.own? = some (owner.fields.idRef setting.settings) :=
    Option.bind_eq_some_iff.mpr ⟨_, (congrArg Relation.joinFrom hrelation).symm, h.ofText?_own⟩
  have hreceived : ∀ {table}, b.received.has table = true → ∃ d', (table, d') ∈ b.received := by
    intro table hhas
    obtain ⟨d', hd'⟩ := Option.isSome_iff_exists.mp hhas
    exact ⟨d', Entries.mem_of_get?_eq_some hd'⟩
  have hne : e.2.kind.same b.belongsToOne = false := hkind ▸ hapart.differ
  have hsame : e.2.kind.same b.hasMany = true := hkind ▸ hapart.many_same
  cases hcase : s.child.fields.join setting.settings (owner.context setting.settings).idPath with
  | column ref =>
    simp only [hcase] at hother hjoin
    have href := Fields.joinToColumn_of_join hcase
    obtain ⟨r, hr⟩ := Override.exists_reference_of_joinToColumn hnode href
    have hhas := hjoinTo r (by rw [href, Option.bind_some, hr]; rfl)
    exact joins_toMany h.received h.mem hne hsame hjoin hown
      ((congrArg ColumnRef.ofText? hother).trans hr) h.own (hreceived hhas)
  | through t =>
    simp only [hcase] at hother hjoin
    obtain ⟨source, target, hsource, htarget, heq, hhas⟩ := hthrough t hjoin
    exact joins_through h.received h.mem hjoin hown
      ((congrArg ColumnRef.ofText? hother).trans h.ofText?_target) hsource htarget h.own h.target
      (hreceived hhas) heq
  | foreignKey column =>
    simp only [hcase] at hother hjoin
    obtain ⟨-, -, rfl⟩ := (Override.join_eq_foreignKey_iff hnode).mp hcase
    obtain ⟨d', hd', -⟩ := h.target
    have hkey : ColumnRef.ofText? e.2.joinTo =
        some ⟨(s.target.idRef setting.settings).table,
          ColumnRef.flatten (owner.fields.idPath setting.settings)⟩ :=
      (ColumnRef.ofText?_eq_some_iff ..).mpr ⟨hother, h.targetParts.1, ColumnRef.isPart_flatten _⟩
    exact joins_toMany h.received h.mem hne hsame hjoin hown hkey h.own ⟨d', hd'⟩

end Binding.Link

end Links

/-! ### Compiled schemas -/

section Compiled

variable {ε : Type} {settings : Settings} {schema : Fields} {binder : Binder Nat ε}
  {handles : Entries String Nat}

/-- The descriptors are called what the schema calls the tables. -/
theorem map_tableName_of_result_eq_ok (hset : settings.IsValid) (hkeyed : schema.isKeyed = true)
    (hok : (compile binder settings (.map schema)).result = .ok handles) :
    (compile binder settings (.map schema)).tables.map Descriptor.tableName =
      (Tree.ofFields schema).tables.map fun t => (t.2.fields.names settings).tableName := by
  have hlength := length_tables_of_result_eq_ok hset hkeyed hok
  refine List.ext_getElem (by simp [hlength]) fun i hi hi' => ?_
  rw [List.length_map] at hi hi'
  rw [List.getElem_map, List.getElem_map]
  exact (describes_of_result_eq_ok hset hkeyed hok (List.getElem?_eq_getElem hi')
    (List.getElem?_eq_getElem hi)).tableName

/-- Every table has been registered under its names. -/
theorem exists_descriptor (hset : settings.IsValid) (hkeyed : schema.isKeyed = true)
    (hok : (compile binder settings (.map schema)).result = .ok handles) {t : Pointer × Tree}
    (ht : t ∈ (Tree.ofFields schema).tables) :
    ∃ d ∈ (compile binder settings (.map schema)).tables,
      (⟨d.tableName, d.idColumn⟩ : ColumnRef) = t.2.fields.idRef settings := by
  obtain ⟨i, hi⟩ := List.getElem?_of_mem ht
  obtain ⟨d, hd, hdescribes⟩ := exists_describing hset hkeyed hok hi
  refine ⟨d, List.mem_of_getElem? hd, ?_⟩
  rw [hdescribes.tableName, hdescribes.idColumn]
  rfl

/-- A table that the rules accept has names that are not empty. -/
theorem Override.idRef_ne {tables : List String} {node : Fields} (hset : settings.IsValid)
    (hnode : NoErrors settings tables node) (htable : node.isTable = true) :
    (node.idRef settings).table ≠ "" ∧ (node.idRef settings).column ≠ "" := by
  obtain ⟨table, hname, htableNe⟩ := exists_name hnode htable (Or.inl rfl)
  obtain ⟨column, hcolumn, hcolumnNe⟩ := exists_idColumn hset hnode
  have htableName : (node.idRef settings).table = table := by
    have hname' : node.tableName? settings = some (.text table) := hname
    rw [Fields.idRef, Fields.names, hname']
    rfl
  have hidColumn : (node.idRef settings).column = column := by
    rw [Fields.idRef, Fields.names, hcolumn]
    rfl
  exact ⟨htableName ▸ htableNe, hidColumn ▸ hcolumnNe⟩

/-- A table of a schema that the rules accept has names that are not empty. -/
theorem idRef_ne_of_mem_tables (hset : settings.IsValid) (hkeyed : schema.isKeyed = true)
    (hvalid : (Override.checkAll settings schema).isValid = true) {t : Pointer × Tree}
    (ht : t ∈ (Tree.ofFields schema).tables) :
    (t.2.fields.idRef settings).table ≠ "" ∧ (t.2.fields.idRef settings).column ≠ "" := by
  have hnode := Override.isValid_iff_noErrors.mp hvalid _ (Tree.walked_of_mem_tables ht)
  obtain ⟨u, table, -, htable, rfl⟩ := (Tree.mem_tables_iff_down? hkeyed).mp ht
  exact Override.idRef_ne hset hnode htable

variable {received : Entries String (Descriptor Nat)}

/-- The names of a table can be the parts of a reference. -/
theorem Fields.Joinable.isPart_idRef (h : schema.Joinable settings received) (hset : settings.IsValid)
    (hkeyed : schema.isKeyed = true)
    (hvalid : (Override.checkAll settings schema).isValid = true) {t : Pointer × Tree}
    (ht : t ∈ (Tree.ofFields schema).tables) :
    ColumnRef.IsPart (t.2.fields.idRef settings).table ∧
      ColumnRef.IsPart (t.2.fields.idRef settings).column := by
  obtain ⟨htable, hcolumn⟩ := idRef_ne_of_mem_tables hset hkeyed hvalid ht
  obtain ⟨hdotTable, hdotColumn⟩ := h.dotless t ht
  exact ⟨⟨htable, hdotTable⟩, ⟨hcolumn, hdotColumn⟩⟩

/-- A relation of a compiled table links two tables that are received with it. -/
theorem Fields.Joinable.exists_link {b : Binding} (h : schema.Joinable settings b.received)
    (hset : settings.IsValid) (hkeyed : schema.isKeyed = true)
    (hok : (compile binder settings (.map schema)).result = .ok handles)
    (hreceived : ∀ d ∈ (compile binder settings (.map schema)).tables,
      (d.tableName, d) ∈ b.received) {d : Descriptor Nat}
    (hd : d ∈ (compile binder settings (.map schema)).tables) {e : String × Relation Nat}
    (he : e ∈ d.relations) :
    ∃ t ∈ (Tree.ofFields schema).tables, ∃ s ∈ t.2.sites,
      b.Link ⟨settings, binder⟩ t.2 s d e := by
  have hvalid := isValid_of_result_eq_ok binder hok
  obtain ⟨i, hi⟩ := List.getElem?_of_mem hd
  obtain ⟨t, hplace, hdescribes⟩ := exists_described hset hkeyed hok hi
  have ht := List.mem_of_getElem? hplace
  obtain ⟨s, hs, -, hrelation⟩ := hdescribes.exists_site he
  obtain ⟨t', ht', htarget⟩ := Tree.exists_target hkeyed ht hs
  have hpromised : ∀ u ∈ (Tree.ofFields schema).tables,
      b.Promises (u.2.fields.idRef settings) := by
    intro u hu
    obtain ⟨d', hd', hnames⟩ := exists_descriptor hset hkeyed hok hu
    exact hnames ▸ Binding.promises_identity (hreceived d' hd')
  exact ⟨t, ht, s, hs, hreceived d hd, he, hrelation, hpromised t ht, htarget ▸ hpromised t' ht',
    h.isPart_idRef hset hkeyed hvalid ht, htarget ▸ h.isPart_idRef hset hkeyed hvalid ht'⟩

/-- **Every relation of a compiled table can be joined** by columns that are promised. -/
theorem Fields.Joinable.joins {b : Binding} (h : schema.Joinable settings b.received)
    (hset : settings.IsValid) (hkeyed : schema.isKeyed = true)
    (hone : binder.belongsToOne = b.belongsToOne) (hmany : binder.hasMany = b.hasMany)
    (hapart : b.belongsToOne.Apart b.hasMany)
    (hok : (compile binder settings (.map schema)).result = .ok handles)
    (hreceived : ∀ d ∈ (compile binder settings (.map schema)).tables,
      (d.tableName, d) ∈ b.received) {d : Descriptor Nat}
    (hd : d ∈ (compile binder settings (.map schema)).tables) {e : String × Relation Nat}
    (he : e ∈ d.relations) : b.Joins e.2 := by
  obtain ⟨t, ht, s, hs, hlink⟩ := h.exists_link hset hkeyed hok hreceived hd he
  cases htable : s.child.fields.isTable with
  | true =>
    obtain ⟨hway, hdot⟩ := h.properties t ht s hs htable
    exact hlink.joins_of_isTable hone hapart htable hway hdot
  | false =>
    have hnode := Override.isValid_iff_noErrors.mp (isValid_of_result_eq_ok binder hok) _
      (Tree.walked_of_mem_sites hkeyed ht hs)
    refine hlink.joins_of_not_isTable hmany hapart htable hnode (h.joinTo t ht s hs htable) ?_
    intro t' ht'
    obtain ⟨source, target, hsource, htarget, heq, hmem⟩ :=
      exists_reference_of_through hset hkeyed hok hd he ht'
    refine ⟨source, target, hsource, htarget, heq, ?_⟩
    -- the join table is a table of the schema, so it has been received
    obtain ⟨u, hu, hname⟩ := Fields.mem_tableNames_iff_tables.mp hmem
    obtain ⟨d', hd', hnames⟩ := exists_descriptor hset hkeyed hok hu
    have htable' : d'.tableName = source.table := by
      have hidRef := congrArg ColumnRef.table hnames
      rw [Fields.idRef, Fields.names, hname] at hidRef
      exact hidRef
    rw [Entries.has_iff]
    exact List.mem_map.mpr ⟨_, hreceived d' hd', htable'⟩

end Compiled

/-! ### Schemas that have been compiled and built -/

namespace Binding

/-- What is left in a binding by a compilation, and what its models are. -/
theorem compile_eq_ok {ε : Type} {b b' : Binding} {virtual : List String}
    {create : List (Descriptor Nat) → Descriptor Nat → Except ε Nat} {settings : Settings}
    {schema : Value} {models : Entries String (Descriptor Nat)}
    (h : b.compile virtual create settings schema = (b', .ok models)) :
    let outcome := NestedTables.compile ⟨virtual, b.belongsToOne, b.hasMany, create⟩ settings schema
    b' = b.receiveAll outcome.tables ∧
      ∃ handles, outcome.result = .ok handles ∧ ∀ m ∈ models, m.2 ∈ outcome.tables := by
  intro outcome
  obtain ⟨hb, hmodels⟩ := Prod.mk.inj h
  refine ⟨hb.symm, ?_⟩
  change outcome.result.map _ = _ at hmodels
  cases hresult : outcome.result with
  | error failure => rw [hresult] at hmodels; simp [Except.map] at hmodels
  | ok handles =>
    rw [hresult] at hmodels
    obtain rfl := Except.ok.inj hmodels
    refine ⟨handles, rfl, fun m hm => ?_⟩
    obtain ⟨handle, -, hm⟩ := List.mem_filterMap.mp hm
    obtain ⟨d, hd, rfl⟩ := Option.map_eq_some_iff.mp hm
    exact List.mem_of_getElem? hd

/-- **Every relation of a compiled schema can be joined** once its tables have been built: there is
a condition, it compares the columns that the relation names, and the database has them all. -/
theorem compile_joins {ε : Type} {one many : Value} (hapart : one.Apart many)
    {settings : Settings} (hset : settings.IsValid) {schema : Fields}
    (hkeyed : schema.isKeyed = true) {virtual : List String} {b b' : Binding}
    {models : Entries String (Descriptor Nat)}
    (hcompile : compile { belongsToOne := one, hasMany := many } virtual
      (Binder.counting : Binder Nat ε).create settings (.map schema) = (b, .ok models))
    (hjoinable : schema.Joinable settings b.received) (hbuild : b.build = (b', .ok ())) :
    ∀ m ∈ models, ∀ e ∈ m.2.relations, ∃ condition,
      (m.2.joinCondition e.1).run.run b' = (.ok condition, b') ∧ e.2.JoinedBy condition ∧
        ∀ c ∈ condition.columns, b'.HasColumn c := by
  obtain ⟨hb, handles, hok, hmodels⟩ := compile_eq_ok hcompile
  have hnodup := hjoinable.names
  rw [← map_tableName_of_result_eq_ok hset hkeyed hok] at hnodup
  rw [receiveAll_of_nodup rfl hnodup] at hb
  subst hb
  intro m hm e he
  have hd := hmodels m hm
  obtain ⟨condition, hjoined, hpromised⟩ := hjoinable.joins hset hkeyed rfl rfl hapart hok
    (fun d hd => List.mem_map.mpr ⟨d, hd, rfl⟩) hd he
  have hcolumns : ∀ c ∈ condition.columns, b'.HasColumn c := by
    refine fun c hc => (hpromised c hc).hasColumn hbuild rfl ?_
    simpa [Entries.Distinct, Entries.keys, Function.comp_def] using hnodup
  obtain ⟨i, hi⟩ := List.getElem?_of_mem hd
  obtain ⟨t, -, hdescribes⟩ := exists_described hset hkeyed hok hi
  have hget := Entries.get?_eq_some_of_mem hdescribes.distinct he
  exact ⟨condition, m.2.finds_joinCondition hget hjoined hcolumns, hjoined, hcolumns⟩

/-- A book with an author, copies that are found by the book, readers that are found through the
table of loans, and reviews that are found by a column of their own. -/
def bookSchema : Fields :=
  [(.text "$id", .text "book"), (.text "properties", .object
    [("author", .object [("$id", .text "author")]),
      ("copies", .object [("items", .object [("$id", .text "copy")])]),
      ("readers", .object [("items", .object [("$id", .text "reader")]),
        ("x-relschema-join-through", .object
          [("from", .text "loan.book"), ("to", .text "loan.reader")])]),
      ("loan", .object [("$id", .text "loan")]),
      ("reviews", .object [("items", .object [("$id", .text "review")]),
        ("x-relschema-join-to-column", .text "review.about")])])]

/-- The relations of a book can be joined, also that to the author, whose foreign key is no property
of the compiled table. -/
theorem compile_joins_book :
    (Value.text "one").Apart (.text "many") ∧ ({} : Settings).IsValid ∧
      bookSchema.isKeyed = true ∧ ∃ b b' models,
        compile { belongsToOne := .text "one", hasMany := .text "many" } ["author_id"]
          (Binder.counting : Binder Nat Empty).create {} (.map bookSchema) = (b, .ok models) ∧
        bookSchema.Joinable {} b.received ∧ b.build = (b', .ok ()) ∧
        models.map (fun m => (m.1, m.2.relations.map (·.1))) =
          [("author", []), ("copy", []), ("reader", []), ("loan", []), ("review", []),
            ("book", ["copies", "readers", "reviews", "author", "loan"])] ∧
        ∀ m ∈ models, ∀ e ∈ m.2.relations, ∃ condition,
          (m.2.joinCondition e.1).run.run b' = (.ok condition, b') ∧ e.2.JoinedBy condition ∧
            ∀ c ∈ condition.columns, b'.HasColumn c := by
  have hapart : (Value.text "one").Apart (.text "many") := Value.apart_text (by decide)
  have hkeyed : bookSchema.isKeyed = true := by decide
  obtain ⟨b, models, hcompile, hreceived, hmodels, hresult⟩ : ∃ b models,
      compile { belongsToOne := .text "one", hasMany := .text "many" } ["author_id"]
        (Binder.counting : Binder Nat Empty).create {} (.map bookSchema) = (b, .ok models) ∧
      b.received.keys = ["author", "copy", "reader", "loan", "review", "book"] ∧
      models.map (fun m => (m.1, m.2.relations.map (·.1))) =
        [("author", []), ("copy", []), ("reader", []), ("loan", []), ("review", []),
          ("book", ["copies", "readers", "reviews", "author", "loan"])] ∧
      b.build.2 = .ok () := ⟨_, _, rfl, rfl, rfl, rfl⟩
  have hjoinable : bookSchema.Joinable {} b.received := by
    refine ⟨by decide, by decide, by decide, ?_⟩
    simp only [Entries.has_iff, hreceived]
    decide
  have hbuild : b.build = (b.build.1, .ok ()) := Prod.ext rfl hresult
  exact ⟨hapart, Settings.isValid_default, hkeyed, b, b.build.1, models, hcompile, hjoinable, hbuild,
    hmodels, compile_joins hapart Settings.isValid_default hkeyed hcompile hjoinable hbuild⟩

end Binding

end NestedTables
