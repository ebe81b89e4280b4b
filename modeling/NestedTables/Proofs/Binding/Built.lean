import NestedTables.Binding
import NestedTables.Proofs.Compile.Descriptors
import NestedTables.Proofs.Document.Pairs

/-!
# The columns that a database has been built with

A column of a table that has been built is the identity column, the column of a property, or a
foreign key. In whatever way the properties of a table come about, the table has a column of the
name of every foreign key that points from it (`Descriptor.exists_column`), since a foreign key
that is no property is added. No foreign key is lost while they are collected
(`ForeignKeys.ofModel_refers`), and no table is left out when the building succeeds
(`Catalog.get?_of_build_eq_ok`).

What a database has, a look-up finds, and it leaves the database as it is
(`Lookup.Finds.columnRef`).
-/

namespace NestedTables

variable {η : Type}

/-! ### Foreign keys are not lost -/

namespace ForeignKeys

/-- Whether a column of a table refers to another one. -/
def Refers (keys : ForeignKeys) (r : ColumnRef) : Prop :=
  r.column ∈ Entries.keys (keys.ofTable r.table)

variable {keys : ForeignKeys} {source target : String} {r r' : ColumnRef}

theorem ofTable_put (keys : ForeignKeys) (table table' : String) (columns : Entries String String) :
    ofTable (keys.put table columns) table' =
      if table = table' then columns else keys.ofTable table' := by
  rw [ofTable, Entries.get?_put]
  split <;> rfl

/-- A column that refers to another one is not made to stop. -/
theorem Refers.add (h : keys.Refers r) (source target : String) :
    (keys.add source target).Refers r := by
  unfold ForeignKeys.add
  split
  · next r' _ _ _ =>
    rw [Refers, ofTable_put]
    split
    · next htable =>
      rw [htable, Entries.keys_put]
      split
      · exact h
      · exact List.mem_append_left _ h
    · exact h
  · exact h

theorem refers_add (keys : ForeignKeys) (hsource : ColumnRef.ofText? source = some r)
    (htarget : ColumnRef.ofText? target = some r') : (keys.add source target).Refers r := by
  simp only [ForeignKeys.add, hsource, htarget]
  rw [Refers, ofTable_put, if_pos rfl, Entries.mem_keys_iff, Entries.get?_put, if_pos rfl,
    Option.isSome_some]

/-- What is said in a list of pairs is kept, as far as both are references. -/
theorem refers_foldl_add {said : List (String × String)} (hmem : (source, target) ∈ said)
    (hsource : ColumnRef.ofText? source = some r) (htarget : ColumnRef.ofText? target = some r')
    (keys : ForeignKeys) : (said.foldl (fun keys p => keys.add p.1 p.2) keys).Refers r := by
  -- what refers already goes on to do so through the rest of the list
  have hkeep : ∀ (said : List (String × String)) (keys : ForeignKeys), keys.Refers r →
      (said.foldl (fun keys p => keys.add p.1 p.2) keys).Refers r := by
    intro said
    induction said with
    | nil => exact fun _ h => h
    | cons p said ih => exact fun _ h => ih _ (h.add p.1 p.2)
  induction said generalizing keys with
  | nil => simp at hmem
  | cons p said ih =>
    rw [List.foldl_cons]
    rcases List.mem_cons.mp hmem with rfl | hmem
    · exact hkeep said _ (refers_add keys hsource htarget)
    · exact ih hmem _

/-- **Every reference that a relation says** is among the foreign keys of the model. -/
theorem ofModel_refers {belongsToOne hasMany : Value} {tables : List (Descriptor η)}
    {d : Descriptor η} (hd : d ∈ tables) {e : String × Relation η} (he : e ∈ d.relations)
    (hsaid : (source, target) ∈ saidBy belongsToOne hasMany e.2)
    (hsource : ColumnRef.ofText? source = some r) (htarget : ColumnRef.ofText? target = some r') :
    (ofModel belongsToOne hasMany tables).Refers r :=
  refers_foldl_add (List.mem_flatMap.mpr ⟨d, hd, List.mem_flatMap.mpr ⟨e, he, hsaid⟩⟩)
    hsource htarget []

end ForeignKeys

/-! ### The columns of a table -/

/-- What is known of the column of a property without looking at its schema. -/
theorem Column.ofProperty_eq_ok {name : String} {property : Fields} {nullable : Bool}
    {refersTo : Option String} {column : Column}
    (h : ofProperty name property nullable refersTo = .ok column) :
    column.name = name ∧ column.isIdentity = false ∧ column.nullable = nullable ∧
      column.refersTo = refersTo := by
  unfold ofProperty at h
  split at h
  · cases h
  · cases h
  · obtain rfl := Except.ok.inj h
    exact ⟨rfl, rfl, rfl, rfl⟩

namespace Descriptor

variable {d : Descriptor η} {keys : Entries String String} {columns : List Column}

/-- **The columns of properties** are read off them, one for each but the identity column. -/
theorem forall₂_ofProperty {required : List String} {properties : Fields}
    (h : d.declaredColumns required keys properties = .ok columns) :
    List.Forall₂ (fun e c => Column.ofProperty e.1.plain (e.2.fields?.getD [])
        (!required.contains e.1.plain) (keys.get? e.1.plain) = .ok c)
      (properties.filter fun e => e.1.plain ≠ d.idColumn) columns := by
  induction properties generalizing columns with
  | nil =>
    obtain rfl := Except.ok.inj h
    exact .nil
  | cons e rest ih =>
    obtain ⟨name, property⟩ := e
    rw [declaredColumns] at h
    split at h
    · next hid =>
      rw [List.filter_cons_of_neg (by simpa using hid)]
      exact ih h
    · next hid =>
      rw [List.filter_cons_of_pos (by simpa using hid)]
      simp only at h
      split at h
      · cases h
      · next column hcolumn =>
        cases hrest : d.declaredColumns required keys rest with
        | error fault =>
          rw [hrest] at h
          cases h
        | ok others =>
          rw [hrest] at h
          obtain rfl := Except.ok.inj h
          exact .cons hcolumn (ih hrest)

/-- Every property but the identity column has its own column. -/
theorem exists_declaredColumn {required : List String} {properties : Fields}
    (h : d.declaredColumns required keys properties = .ok columns) {e : Scalar × Value}
    (he : e ∈ properties) (hne : e.1.plain ≠ d.idColumn) : ∃ c ∈ columns, c.name = e.1.plain := by
  have hmem : e ∈ properties.filter fun e => e.1.plain ≠ d.idColumn :=
    List.mem_filter.mpr ⟨he, by simpa using hne⟩
  obtain ⟨c, hc, hcolumn⟩ := exists_mem_of_forall₂_left (forall₂_ofProperty h) hmem
  exact ⟨c, hc, (Column.ofProperty_eq_ok hcolumn).1⟩

/-- The columns of a built table are the identity column, those of its properties, and the added
ones. -/
theorem build_eq_ok (h : d.build keys = .ok columns) :
    ∃ required properties declared, d.properties.fields? = some properties ∧
      d.declaredColumns required keys properties = .ok declared ∧
      columns = .identity d.idColumn :: declared ++ d.addedColumns keys := by
  unfold build at h
  split at h
  · simp at h
  · simp at h
  · next required properties _ hproperties =>
    split at h
    · simp at h
    · next declared hdeclared =>
      simp only [] at h
      split at h
      · simp at h
      · exact ⟨required, properties, declared, hproperties, hdeclared, (Except.ok.inj h).symm⟩

/-- **A built table has its identity column and a column for each foreign key**, whether that is
a property or not. -/
theorem exists_column (h : d.build keys = .ok columns) {name : String}
    (hname : name = d.idColumn ∨ name ∈ Entries.keys keys) : ∃ c ∈ columns, c.name = name := by
  obtain ⟨required, properties, declared, hproperties, hdeclared, rfl⟩ := build_eq_ok h
  by_cases hid : name = d.idColumn
  · exact ⟨.identity d.idColumn, by simp, hid.symm⟩
  · cases hhas : d.columns.has (.text name) with
    | true =>
      -- the key is a property, which has a column of its own
      have hcolumns : d.columns = properties := by
        rw [Descriptor.columns, hproperties, Option.getD_some]
      rw [Entries.has_iff, hcolumns] at hhas
      obtain ⟨e, he, hkey⟩ := List.mem_map.mp hhas
      have hplain : e.1.plain = name := congrArg Scalar.plain hkey
      obtain ⟨c, hc, hcname⟩ := exists_declaredColumn hdeclared he (hplain ▸ hid)
      exact ⟨c, by simp [hc], hcname.trans hplain⟩
    | false =>
      obtain ⟨e, he, rfl⟩ := List.mem_map.mp (hname.resolve_left hid)
      have hadded : Column.reference e.1 e.2 ∈ d.addedColumns keys :=
        List.mem_map.mpr ⟨e, List.mem_filter.mpr ⟨he, by simp [hhas, hid]⟩, rfl⟩
      exact ⟨.reference e.1 e.2, by simp [hadded], rfl⟩

end Descriptor

/-! ### The tables of a catalogue -/

/-- **Building that succeeds leaves no table out.** -/
theorem Catalog.get?_of_build_eq_ok {keys : ForeignKeys} {tables : Entries String (Descriptor η)}
    {catalog built : Catalog} (h : build keys tables catalog = (built, .ok ()))
    (hdistinct : tables.Distinct) (hnew : ∀ e ∈ tables, catalog.has e.1 = false)
    {e : String × Descriptor η} (he : e ∈ tables) :
    ∃ columns, e.2.build (keys.ofTable e.1) = .ok columns ∧ built.get? e.1 = some columns := by
  induction tables generalizing catalog with
  | nil => simp at he
  | cons e' rest ih =>
    obtain ⟨table, d⟩ := e'
    obtain ⟨hnot, hrest⟩ := List.nodup_cons.mp hdistinct
    have hfresh : catalog.has table = false := hnew _ List.mem_cons_self
    rw [build, if_neg (by simp [hfresh])] at h
    split at h
    · simp at h
    · next columns hcolumns =>
      rcases List.mem_cons.mp he with rfl | he
      · -- it is built now, and stays as it is
        refine ⟨columns, hcolumns, ?_⟩
        have hget : Entries.get? table (catalog ++ [(table, columns)]) = some columns := by
          have hnone : Entries.get? table catalog = none :=
            Option.isNone_iff_eq_none.mp (by simpa [Entries.has] using hfresh)
          rw [Entries.get?_append, hnone, Option.none_or, Entries.get?_cons, if_pos rfl]
        have hkeep := get?_build keys rest _ table columns hget
        rwa [h] at hkeep
      · refine ih h hrest (fun e he => ?_) he
        have hne : table ≠ e.1 := fun heq => hnot (List.mem_map.mpr ⟨e, he, heq.symm⟩)
        have hold := hnew e (List.mem_cons_of_mem _ he)
        rw [Entries.has] at hold ⊢
        rw [Entries.get?_append, Entries.get?_cons, if_neg hne, Entries.get?_nil, Option.or_none]
        exact hold

/-! ### What a binding has received -/

namespace Binding

/-- What a binding has received, with the tables in their order. -/
theorem receiveAll_eq (b : Binding) (ds : List (Descriptor Nat)) :
    b.receiveAll ds = { b with received :=
      (ds.map fun d => (d.tableName, d)).foldl (fun es e => es.put e.1 e.2) b.received } := by
  unfold receiveAll
  induction ds generalizing b with
  | nil => rfl
  | cons d ds ih =>
    rw [List.foldl_cons, ih]
    rfl

/-- Tables with different names are all kept. -/
theorem receiveAll_of_nodup {b : Binding} (hfresh : b.received = []) {ds : List (Descriptor Nat)}
    (h : (ds.map Descriptor.tableName).Nodup) :
    b.receiveAll ds = { b with received := ds.map fun d => (d.tableName, d) } := by
  have hkeys : (Entries.keys (ds.map fun d => (d.tableName, d))).Nodup := by
    simpa [Entries.keys, Function.comp_def] using h
  rw [receiveAll_eq, hfresh, Entries.foldl_put_eq_append _ _ (by rwa [List.nil_append]),
    List.nil_append]

/-- Whether the database has the column that a reference names. -/
def HasColumn (b : Binding) (r : ColumnRef) : Prop :=
  ∃ columns, b.catalog.get? r.table = some columns ∧ ∃ c ∈ columns, c.name = r.column

/-- Whether a column belongs to a table that has been received, and is bound to be built: it is the
identity column, or it refers to another column. -/
def Promises (b : Binding) (r : ColumnRef) : Prop :=
  ∃ d, (r.table, d) ∈ b.received ∧ (r.column = d.idColumn ∨ b.foreignKeys.Refers r)

variable {b b' : Binding}

/-- **A database that has been built has what was promised.** -/
theorem Promises.hasColumn {r : ColumnRef} (hr : b.Promises r) (h : b.build = (b', .ok ()))
    (hempty : b.catalog = []) (hdistinct : b.received.Distinct) : b'.HasColumn r := by
  have hbuild : b.catalog.build b.foreignKeys b.received = (b'.catalog, .ok ()) := by
    obtain ⟨rfl, hresult⟩ := Prod.mk.inj h
    exact Prod.ext rfl hresult
  obtain ⟨d, hd, hcolumn⟩ := hr
  obtain ⟨columns, hcolumns, hget⟩ := Catalog.get?_of_build_eq_ok hbuild hdistinct
    (by simp [hempty, Entries.has]) hd
  exact ⟨columns, hget, d.exists_column hcolumns hcolumn⟩

theorem promises_identity {d : Descriptor Nat} (hd : (d.tableName, d) ∈ b.received) :
    b.Promises ⟨d.tableName, d.idColumn⟩ :=
  ⟨d, hd, Or.inl rfl⟩

/-- What a relation says of a table that has been received is promised. -/
theorem promises_of_said {table : String} {d : Descriptor Nat} (hd : (table, d) ∈ b.received)
    {e : String × Relation Nat} (he : e ∈ d.relations) {source target : String}
    (hsaid : (source, target) ∈ ForeignKeys.saidBy b.belongsToOne b.hasMany e.2)
    {r r' : ColumnRef} (hsource : ColumnRef.ofText? source = some r)
    (htarget : ColumnRef.ofText? target = some r') (htable : ∃ d', (r.table, d') ∈ b.received) :
    b.Promises r := by
  obtain ⟨d', hd'⟩ := htable
  exact ⟨d', hd', Or.inr (ForeignKeys.ofModel_refers (List.mem_map.mpr ⟨_, hd, rfl⟩) he hsaid
    hsource htarget)⟩

end Binding

/-! ### Looking things up -/

namespace Lookup

variable {α β : Type} {b : Binding} {l : Lookup α} {a : α}

/-- Whether a look-up finds something and leaves the binding as it is. -/
def Finds (l : Lookup α) (b : Binding) (a : α) : Prop :=
  l.run.run b = (.ok a, b)

theorem Finds.pure (b : Binding) (a : α) : (Pure.pure a : Lookup α).Finds b a := rfl

theorem Finds.get (b : Binding) : (MonadState.get : Lookup Binding).Finds b b := rfl

theorem Finds.bind {f : α → Lookup β} {c : β} (h : l.Finds b a) (hf : (f a).Finds b c) :
    (l >>= f).Finds b c := by
  unfold Finds at *
  rw [ExceptT.run_bind, StateT.run_bind, h]
  exact hf

theorem Finds.orFault {o : Option α} (h : o = some a) (fault : LookupFault) :
    (Lookup.orFault fault o).Finds b a := by
  subst h
  exact Finds.pure b a

/-- A table that is there is found, and nothing is built. -/
theorem Finds.table {name : String} {columns : List Column}
    (h : b.catalog.get? name = some columns) : (Lookup.table name).Finds b columns := by
  have hhas : b.catalog.has name = true := by rw [Entries.has, h, Option.isSome_some]
  refine (Finds.get b).bind ?_
  rw [if_pos hhas]
  exact (Finds.get b).bind (Finds.orFault h _)

/-- **A column that is there is found** by every text that refers to it. -/
theorem Finds.columnRef {r : ColumnRef} (h : b.HasColumn r) {text : String}
    (htext : ColumnRef.ofText? text = some r) : (Lookup.columnRef text).Finds b r := by
  obtain ⟨columns, hcolumns, c, hc, hname⟩ := h
  have hfind : ∃ found, columns.find? (fun c => c.name = r.column) = some found ∧
      found.name = r.column := by
    cases hfound : columns.find? fun c => c.name = r.column with
    | none => exact absurd hname (by simpa using List.find?_eq_none.mp hfound c hc)
    | some found => exact ⟨found, rfl, by simpa using List.find?_some hfound⟩
  obtain ⟨found, hfound, hfoundName⟩ := hfind
  have hcolumn : (Lookup.column text).Finds b (r.table, found) :=
    (Finds.orFault htext _).bind ((Finds.table hcolumns).bind
      ((Finds.orFault hfound _).bind (Finds.pure b _)))
  have hr : (⟨r.table, found.name⟩ : ColumnRef) = r := by rw [hfoundName]
  exact hcolumn.bind (hr ▸ Finds.pure b _)

end Lookup

end NestedTables
