import NestedTables.Proofs.Compile.Copies
import NestedTables.Proofs.Compile.Graph

/-!
# Parts of a schema

A table of a schema, with what is inside it, is a schema of its own. Walked alone it gives the same
tables as it gives in its place (`compile_mounted`): the tables at and below it are registered one
after the other, and each has the names, the relations and the columns that it has alone. What
comes from outside are foreign keys, and nothing else: those that tables outside the part ask for.

A schema is walked when its overrides have been checked, and then its walk succeeds exactly when it
compiles. The part is walked without a check of its own: an override may name a table that is
outside.

A value that stays in a schema may have tables in it, and with these it changes when they are given
foreign keys. So two values are compared by what they are made of (`Value.SameOutline`): a document
with references to tables, in which the schemas of the one side or of the other are put in.

Everything is read off `exists_located`. The table that a node becomes is the same in both walks,
and its references are shifted by the number of tables before the part.
-/

namespace NestedTables

variable {η θ ε δ : Type}

/-! ### Descriptors that correspond -/

/-- Whether two values are one document with references to tables, in which the schemas of either
side have been put in. -/
def Value.SameOutline (schemas₀ schemas : List Fields) (v₀ v : Value) : Prop :=
  ∃ f : Fragment, f.resolve schemas₀ = v₀ ∧ f.resolve schemas = v

/-- References may be counted from a later table. -/
theorem Fragment.sameOutline_drop (start : Nat) (schemas₀ schemas : List Fields) (f : Fragment) :
    (f.resolve (schemas₀.drop start)).SameOutline schemas₀ schemas
      (f.resolve (schemas.drop start)) :=
  ⟨f.shift start, resolve_shift start schemas₀ f, resolve_shift start schemas f⟩

/-- Whether two relations are the same under one name, but for their handles, which have one place
among those of either side. -/
def Relation.Mounted (handles₀ : List θ) (handles : List η) (e₀ : String × Relation θ)
    (e : String × Relation η) : Prop :=
  e.1 = e₀.1 ∧ (e.2.withoutTarget : Relation Unit) = e₀.2.withoutTarget ∧
    ∃ (place : Nat) (handle₀ : θ) (handle : η), handles₀[place]? = some handle₀ ∧
      e₀.2.target = some handle₀ ∧ handles[place]? = some handle ∧ e.2.target = some handle

/-- Whether a descriptor is that of a table in its place, where `d₀` is that of the table in a part
of the schema that stands alone. The schemas and the handles are those of the tables of the part
that have been registered before; `asked` says which columns have been asked for from outside the
part, and of which tables. -/
structure Descriptor.Mounted (foreignKey : Fields) (asked : String → String → Prop)
    (schemas₀ schemas : List Fields) (handles₀ : List θ) (handles : List η) (d₀ : Descriptor θ)
    (d : Descriptor η) : Prop where
  modelName : d.modelName = d₀.modelName
  tableName : d.tableName = d₀.tableName
  idColumn : d.idColumn = d₀.idColumn
  relations : List.Forall₂ (Relation.Mounted handles₀ handles) d₀.relations d.relations
  /-- The schemas have the same entries. -/
  keys : d.schema.keys = d₀.schema.keys
  entries : ∀ k v₀, k ≠ propertiesKey → d₀.schema.get? k = some v₀ →
    ∃ v, d.schema.get? k = some v ∧ v₀.SameOutline schemas₀ schemas v
  /-- Every column is there. -/
  columns : ∀ k v₀, Entries.get? k d₀.columns = some v₀ →
    ∃ v, Entries.get? k d.columns = some v ∧ v₀.SameOutline schemas₀ schemas v
  /-- Every other column is a foreign key that has been asked for from outside. -/
  more : ∀ k v, Entries.get? k d.columns = some v → Entries.get? k d₀.columns = none →
    v = .map foreignKey ∧ ∃ column, k = .text column ∧ asked d.tableName column

theorem Descriptor.Mounted.mono {foreignKey : Fields} {asked asked' : String → String → Prop}
    {schemas₀ schemas : List Fields} {handles₀ : List θ} {handles : List η} {d₀ : Descriptor θ}
    {d : Descriptor η} (h : d₀.Mounted foreignKey asked schemas₀ schemas handles₀ handles d)
    (hasked : ∀ column, asked d.tableName column → asked' d.tableName column) :
    d₀.Mounted foreignKey asked' schemas₀ schemas handles₀ handles d := by
  refine { h with more := fun k v hv hnone => ?_ }
  obtain ⟨hvalue, column, hcolumn, h⟩ := h.more k v hv hnone
  exact ⟨hvalue, column, hcolumn, hasked column h⟩

/-- The foreign keys are found by their names. -/
theorem get?_map_text {columns : List String} {value v : Value} {k : Scalar} :
    Entries.get? k (columns.map fun column => ((.text column : Scalar), value)) = some v ↔
      (∃ column ∈ columns, k = .text column) ∧ v = value := by
  induction columns with
  | nil => simp
  | cons column columns ih =>
    rw [List.map_cons, Entries.get?_cons]
    split
    · next h => simp [h, eq_comm]
    · next h => simp [ih, Ne.symm h]

namespace Draft

/-- **A column of a table** is one of its own, or it is a foreign key under another name. -/
theorem get?_columns_located (setting : Walk.Setting η ε) {node : Fields}
    (hkeyed : node.isKeyed = true) (schemas : List Fields) (handles : List θ)
    {columns : List String} (hnodup : columns.Nodup) {k : Scalar} {v : Value} :
    Entries.get? k
        ((setting.draft node).located setting.settings schemas handles columns).columns = some v ↔
      (∃ f, (Walk.ownColumns setting 0 node).get? k = some f ∧ f.resolve schemas = v) ∨
        ((Walk.ownColumns setting 0 node).get? k = none ∧
          (∃ column ∈ columns, k = .text column) ∧ v = .map setting.settings.foreignKey) := by
  rw [columns_located setting hkeyed schemas handles hnodup, Entries.get?_append,
    Entries.get?_mapValues]
  cases hown : (Walk.ownColumns setting 0 node).get? k with
  | some f => simp
  | none =>
    rw [Option.map_none, Option.none_or, get?_map_text]
    have hnew : ∀ column : String, k = .text column →
        (Walk.ownColumns setting 0 node).has (.text column) = false := by
      rintro column rfl
      rw [Entries.has, hown, Option.isSome_none]
    simp only [List.mem_filter, Bool.not_eq_true', reduceCtorEq, false_and, exists_false,
      false_or, true_and]
    refine and_congr_left fun _ => exists_congr fun column => and_congr_left fun hk => ?_
    exact and_iff_left (hnew column hk)

/-- The relations of a table lead to tables inside it. -/
theorem exists_target_lt (setting : Walk.Setting η ε) {node : Fields}
    (hkeyed : node.isKeyed = true) {e : String × Relation Nat}
    (he : e ∈ (setting.draft node).relations) :
    ∃ place, e.2.target = some place ∧ place < Tree.countBelow node.subtrees := by
  obtain ⟨start, hstart, hleads⟩ := Walk.leadsToPlaces_outlineDraft setting hkeyed [] 0
  obtain ⟨s, -, -, place, htarget, hplace⟩ := hleads e he
  have hlt := (List.mem_zipIdx hplace).2.1
  rw [Tree.length_tablesBelow, hstart, Nat.zero_add] at hlt
  exact ⟨place, htarget, hlt⟩

/-- A relation that leads to a table of the part is given its handle on either side. -/
theorem mounted_withHandles {handles₀ : List θ} {handles : List η} {start place count : Nat}
    (hhandles₀ : start + count ≤ handles₀.length) (hhandles : start + count ≤ handles.length)
    {e : String × Relation Nat} (htarget : e.2.target = some place) (hlt : place < count) :
    Relation.Mounted handles₀ handles (e.1, e.2.withHandles (handles₀.drop start))
      (e.1, e.2.withHandles (handles.drop start)) := by
  have hplace₀ := List.getElem?_eq_getElem (l := handles₀) (i := start + place) (by omega)
  have hplace := List.getElem?_eq_getElem (l := handles) (i := start + place) (by omega)
  refine ⟨rfl, rfl, start + place, _, _, hplace₀, ?_, hplace, ?_⟩
  · rw [Relation.withHandles, htarget, Option.bind_some, List.getElem?_drop, hplace₀]
  · rw [Relation.withHandles, htarget, Option.bind_some, List.getElem?_drop, hplace]

/-- **The table that a node becomes** is the same on either side, if the foreign keys that it has in
its place only have been asked for from outside. -/
theorem mounted_located {setting : Walk.Setting η ε} {setting₀ : Walk.Setting θ δ}
    (hwords : (setting₀.words : Walk.Setting Nat Unit) = (setting.words : Walk.Setting Nat Unit))
    {node : Fields} (hkeyed : node.isKeyed = true) {schemas₀ schemas : List Fields}
    {handles₀ : List θ} {handles : List η} {start : Nat}
    (hhandles₀ : start + Tree.countBelow node.subtrees ≤ handles₀.length)
    (hhandles : start + Tree.countBelow node.subtrees ≤ handles.length)
    {columns₀ columns : List String} (hnodup₀ : columns₀.Nodup) (hnodup : columns.Nodup)
    (hsub : columns₀ ⊆ columns) {asked : String → String → Prop}
    (hasked : ∀ column ∈ columns, column ∉ columns₀ →
      asked (node.names setting.settings).tableName column) :
    Descriptor.Mounted setting.settings.foreignKey asked schemas₀ schemas handles₀ handles
      ((setting₀.draft node).located setting₀.settings (schemas₀.drop start) (handles₀.drop start)
        columns₀)
      ((setting.draft node).located setting.settings (schemas.drop start) (handles.drop start)
        columns) := by
  have hsettings : setting₀.settings = setting.settings :=
    congrArg Walk.Setting.settings hwords
  rw [Walk.Setting.draft_congr hwords node, hsettings]
  have hget₀ := @get?_columns_located _ θ _ setting node hkeyed (schemas₀.drop start)
    (handles₀.drop start) columns₀ hnodup₀
  have hget := @get?_columns_located _ η _ setting node hkeyed (schemas.drop start)
    (handles.drop start) columns hnodup
  have hschema₀ := schema_located setting hkeyed (schemas₀.drop start) (handles₀.drop start) hnodup₀
  have hschema := schema_located setting hkeyed (schemas.drop start) (handles.drop start) hnodup
  refine ⟨by simp [located, describe], by simp [located, describe], by simp [located, describe],
    ?_, ?_, ?_, ?_, ?_⟩
  · simp only [located, describe, withHandles, withColumns_relations]
    refine List.forall₂_map_left_iff.mpr (List.forall₂_map_right_iff.mpr
      (List.forall₂_same.mpr fun e he => ?_))
    obtain ⟨place, htarget, hlt⟩ := exists_target_lt setting hkeyed he
    exact mounted_withHandles hhandles₀ hhandles htarget hlt
  · rw [hschema₀, hschema]
    simp [Fragment.resolveEntries_eq_mapValues, Entries.keys_mapValues, Entries.keys_put]
  · intro k v₀ hk hv₀
    rw [hschema₀, Entries.get?_put, if_neg hk.symm, Fragment.get?_resolveEntries] at hv₀
    rw [hschema, Entries.get?_put, if_neg hk.symm, Fragment.get?_resolveEntries]
    obtain ⟨f, hf, rfl⟩ := Option.map_eq_some_iff.mp hv₀
    exact ⟨_, by rw [hf, Option.map_some], f.sameOutline_drop start schemas₀ schemas⟩
  · intro k v₀ hv₀
    rcases hget₀.mp hv₀ with ⟨f, hf, rfl⟩ | ⟨hnone, ⟨column, hcolumn, rfl⟩, rfl⟩
    · exact ⟨_, hget.mpr (Or.inl ⟨f, hf, rfl⟩), f.sameOutline_drop start schemas₀ schemas⟩
    · refine ⟨_, hget.mpr (Or.inr ⟨hnone, ⟨column, hsub hcolumn, rfl⟩, rfl⟩), ?_⟩
      exact ⟨.verbatim (.map setting.settings.foreignKey), rfl, rfl⟩
  · intro k v hv hnone
    rcases hget.mp hv with ⟨f, hf, rfl⟩ | ⟨hown, ⟨column, hcolumn, rfl⟩, rfl⟩
    · exact absurd (hget₀.mpr (Or.inl ⟨f, hf, rfl⟩)) (by rw [hnone]; simp)
    · refine ⟨rfl, column, rfl, ?_⟩
      have htable : ((setting.draft node).located setting.settings (schemas.drop start)
          (handles.drop start) columns).tableName = (node.names setting.settings).tableName := by
        simp only [located, describe, withHandles_tableName, withColumns_tableName]
        rfl
      rw [htable]
      refine hasked column hcolumn fun hmem => ?_
      exact absurd (hget₀.mpr (Or.inr ⟨hown, ⟨column, hmem, rfl⟩, rfl⟩)) (by rw [hnone]; simp)

end Draft

/-! ### Two runs -/

/-- What is asked for does not depend on where the tables stand. -/
theorem asksIn_tablesFrom {settings : Settings} {table column : String} (at_ : Pointer)
    (tree : Tree) : AsksIn settings (Tree.tablesFrom at_ tree) table column ↔
      AsksIn settings tree.tables table column := by
  rw [Tree.tablesFrom_eq_map]
  constructor
  · rintro ⟨_, hu, hasks⟩
    obtain ⟨u, hmem, rfl⟩ := List.mem_map.mp hu
    exact ⟨u, hmem, hasks⟩
  · rintro ⟨u, hu, hasks⟩
    exact ⟨_, List.mem_map.mpr ⟨u, hu, rfl⟩, hasks⟩

/-- The tables at and below a table are those that it has if it stands alone. -/
theorem Tree.getElem?_of_tables_eq_append {root : Fields} (hkeyed : root.isKeyed = true)
    {t : Pointer × Tree} (ht : t ∈ (ofFields root).tables) {before after : List (Pointer × Tree)}
    (htables : (ofFields root).tables = before ++ tablesFrom t.1 t.2 ++ after) {k : Nat}
    {u : Pointer × Tree} (hu : (ofFields t.2.fields).tables[k]? = some u) :
    (ofFields root).tables[before.length + k]? = some (t.1 ++ u.1, u.2) := by
  obtain ⟨htree, -⟩ := ofFields_of_mem_tables hkeyed ht
  rw [← htree, tables] at hu
  have hmap : (tablesFrom t.1 t.2)[k]? = some (t.1 ++ u.1, u.2) := by
    rw [tablesFrom_eq_map, List.getElem?_map, hu, Option.map_some]
  have hlt := (List.getElem?_eq_some_iff.mp hmap).1
  rw [htables, List.append_assoc, List.getElem?_append_right (by omega), Nat.add_sub_cancel_left,
    List.getElem?_append_left hlt, hmap]

theorem Tree.length_tables_of_mem_tables {root : Fields} (hkeyed : root.isKeyed = true)
    {t : Pointer × Tree} (ht : t ∈ (ofFields root).tables) :
    (ofFields t.2.fields).tables.length = (tablesFrom t.1 t.2).length := by
  obtain ⟨htree, -⟩ := ofFields_of_mem_tables hkeyed ht
  rw [← htree, tables, length_tablesFrom, length_tablesFrom]

/-- What is left between two places, counted from the first one. -/
theorem drop_map_take {α β : Type} (f : α → β) (as : List α) (start k n : Nat) :
    ((as.take (start + k)).map f).drop (start + n) =
      (((as.drop start).take k).map f).drop n := by
  rw [← List.drop_drop, ← List.map_drop, List.drop_take, Nat.add_sub_cancel_left]

section Runs

variable {setting : Walk.Setting η ε} {setting₀ : Walk.Setting θ δ} {root : Fields}
  {log log₀ : List Event} {s : Stage η} {s₀ : Stage θ}

/-- **A table inside a part of a schema** has the descriptor that it has if the part stands alone,
except for what is asked for from outside. -/
theorem mounted_of_getElem?
    (hwords : (setting₀.words : Walk.Setting Nat Unit) = (setting.words : Walk.Setting Nat Unit))
    (hkeyed : root.isKeyed = true) {t : Pointer × Tree} {before after : List (Pointer × Tree)}
    (htables : (Tree.ofFields root).tables = before ++ Tree.tablesFrom t.1 t.2 ++ after)
    (ht : t ∈ (Tree.ofFields root).tables)
    (hrun : (Stage.start log).Performs setting
      (Walk.acts setting none none [] 0 (Tree.ofFields root)) s)
    (hrun₀ : (Stage.start log₀).Performs setting₀
      (Walk.acts setting₀ none none [] 0 (Tree.ofFields t.2.fields)) s₀)
    {k : Nat} {d₀ : Descriptor θ} {d : Descriptor η}
    (hd₀ : s₀.registry.descriptors[k]? = some d₀)
    (hd : s.registry.descriptors[before.length + k]? = some d) :
    Descriptor.Mounted setting.settings.foreignKey (AsksIn setting.settings (before ++ after))
      ((s₀.registry.descriptors.take k).map Descriptor.schema)
      (((s.registry.descriptors.drop before.length).take k).map Descriptor.schema)
      (s₀.handles.take k) ((s.handles.drop before.length).take k) d₀ d := by
  obtain ⟨htree, hnode⟩ := Tree.ofFields_of_mem_tables hkeyed ht
  have hsettings : setting₀.settings = setting.settings :=
    congrArg Walk.Setting.settings hwords
  obtain ⟨u₀, start, hu₀, hstart, rfl⟩ := exists_located hnode hrun₀ hd₀
  obtain ⟨u, start', hu, hstart', rfl⟩ := exists_located hkeyed hrun hd
  have hsame : u.2 = u₀.2 := by
    have hplace := Tree.getElem?_of_tables_eq_append hkeyed ht htables hu₀
    have heq : u = (t.1 ++ u₀.1, u₀.2) := Option.some.inj (hu.symm.trans hplace)
    rw [heq]
  rw [hsame] at hstart' ⊢
  obtain rfl : start' = before.length + start := by omega
  obtain ⟨-, hinner⟩ := Tree.ofFields_of_mem_tables hnode (List.mem_of_getElem? hu₀)
  have hlength₀ := (List.getElem?_eq_some_iff.mp hd₀).1
  have hlength := (List.getElem?_eq_some_iff.mp hd).1
  rw [← hrun₀.gives.length_eq] at hlength₀
  rw [← hrun.gives.length_eq] at hlength
  rw [drop_map_take, ← List.map_id (s.handles.take _), drop_map_take, List.map_id]
  refine Draft.mounted_located hwords hinner ?_ ?_ (Stage.nodup_eraseDups _)
    (Stage.nodup_eraseDups _) ?_ ?_
  · rw [List.length_take]
    omega
  · rw [List.length_take, List.length_drop]
    omega
  · intro column hcolumn
    rw [List.mem_eraseDups, Walk.mem_asked_acts_root _ hnode, hsettings] at hcolumn
    rw [List.mem_eraseDups, Walk.mem_asked_acts_root _ hkeyed, htables, asksIn_append,
      asksIn_append, asksIn_tablesFrom, htree]
    exact Or.inl (Or.inr hcolumn)
  · intro column hcolumn hnot
    rw [List.mem_eraseDups, Walk.mem_asked_acts_root _ hnode, hsettings] at hnot
    rw [List.mem_eraseDups, Walk.mem_asked_acts_root _ hkeyed, htables, asksIn_append,
      asksIn_append, asksIn_tablesFrom, htree] at hcolumn
    rw [asksIn_append]
    rcases hcolumn with (h | h) | h
    · exact Or.inl h
    · exact absurd h hnot
    · exact Or.inr h

end Runs

/-! ### What is asked for from outside -/

/-- Whether a table asks for a foreign key of the tables of a name: it has a relation to many of
them by that foreign key, for an array that does not say how it is joined. -/
def Descriptor.Requests (setting : Walk.Setting η ε) (owner : Tree) (d : Descriptor η)
    (table column : String) : Prop :=
  ∃ a ∈ owner.sites, a.child.fields.kind = .arrayOfTable ∧
    setting.settings.override? .joinToColumn a.child.fields = none ∧
    setting.settings.override? .joinThrough a.child.fields = none ∧
    ∃ r, (a.name, r) ∈ d.relations ∧ r.kind = setting.binder.hasMany ∧ r.targetTable = table ∧
      r.through = none ∧ r.joinTo = (ColumnRef.mk table column).written

variable {settings : Settings} {schema : Fields}

/-- What is asked for by a table is asked for by a relation of its descriptor. -/
theorem requests_of_asks {binder : Binder η ε} (hkeyed : schema.isKeyed = true)
    (hvalid : (Override.checkAll settings schema).isValid = true) {t : Pointer × Tree}
    (ht : t ∈ (Tree.ofFields schema).tables) {d : Descriptor η}
    (hd : d.Describes (⟨settings, binder⟩ : Walk.Setting η ε) t.2) {table column : String}
    (h : Asks settings (t.2.fields.idPath settings) t.2.sites table column) :
    d.Requests (⟨settings, binder⟩ : Walk.Setting η ε) t.2 table column := by
  obtain ⟨a, ha, hkind, hname, hjoin⟩ := h
  have hwalked := Tree.walked_of_mem_sites hkeyed ht ha
  obtain ⟨hcolumn, hthrough, -⟩ := (Override.join_eq_foreignKey_iff
    (Override.isValid_iff_noErrors.mp hvalid _ hwalked)).mp hjoin
  obtain ⟨⟨name, r⟩, hr, rfl, hrelation⟩ := hd.exists_relation ha
  refine ⟨a, ha, hkind, hcolumn, hthrough, r, hr, ?_⟩
  have htable : a.child.fields.isTable = false := by
    rw [← Bool.not_eq_true, ← Fields.kind_eq_table_iff, hkind]
    decide
  have hjoin' : a.child.fields.join settings (t.2.context settings).idPath =
      .foreignKey column := hjoin
  -- field by field, the relation is that of the site
  simp only [Site.relation, htable, Bool.false_eq_true, if_false, hjoin'] at hrelation
  refine ⟨(congrArg Relation.kind hrelation).symm, ?_, (congrArg Relation.through hrelation).symm,
    ?_⟩
  · exact (congrArg Relation.targetTable hrelation).symm.trans hname
  · rw [← hname]
    exact (congrArg Relation.joinTo hrelation).symm

/-- What some tables of a schema that compiles ask for, a relation of one of them asks for. -/
theorem exists_requests_of_asksIn {binder : Binder η ε} (hset : settings.IsValid)
    (hkeyed : schema.isKeyed = true) {models : Entries String η}
    (hok : (compile binder settings (.map schema)).result = .ok models)
    {all outer : List ((Pointer × Tree) × Descriptor η)}
    (htables : (Tree.ofFields schema).tables = all.map (·.1))
    (hdescriptors : (compile binder settings (.map schema)).tables = all.map (·.2))
    (hsub : ∀ q ∈ outer, q ∈ all) {table column : String}
    (h : AsksIn settings (outer.map (·.1)) table column) :
    ∃ q ∈ outer, q.2.Requests ⟨settings, binder⟩ q.1.2 table column := by
  obtain ⟨u, hu, hasks⟩ := h
  obtain ⟨q, hq, rfl⟩ := List.mem_map.mp hu
  obtain ⟨j, hj⟩ := List.getElem?_of_mem (hsub q hq)
  have htable : (Tree.ofFields schema).tables[j]? = some q.1 := by
    rw [htables, List.getElem?_map, hj, Option.map_some]
  have hdescriptor : (compile binder settings (.map schema)).tables[j]? = some q.2 := by
    rw [hdescriptors, List.getElem?_map, hj, Option.map_some]
  exact ⟨q, hq, requests_of_asks hkeyed (isValid_of_result_eq_ok binder hok)
    (List.mem_of_getElem? htable)
    (describes_of_result_eq_ok hset hkeyed hok htable hdescriptor) hasks⟩

/-- Two lists that go along with each other are taken apart together. -/
theorem exists_pairs {α β : Type} {as : List α} {bs : List β} (hlength : as.length = bs.length)
    {first middle last : List α} (h : as = first ++ middle ++ last) :
    ∃ before run after : List (α × β), as = (before ++ run ++ after).map (·.1) ∧
      bs = (before ++ run ++ after).map (·.2) ∧ before.map (·.1) = first ∧
      run.map (·.1) = middle ∧ after.map (·.1) = last := by
  have hfst : (as.zip bs).map (·.1) = as := List.map_fst_zip (Nat.le_of_eq hlength)
  have hsnd : (as.zip bs).map (·.2) = bs := List.map_snd_zip (Nat.le_of_eq hlength.symm)
  obtain ⟨front, after, hpairs, hfront, hafter⟩ := List.map_eq_append_iff.mp (hfst.trans h)
  obtain ⟨before, run, rfl, hbefore, hrun⟩ := List.map_eq_append_iff.mp hfront
  rw [hpairs] at hfst hsnd
  exact ⟨before, run, after, hfst.symm, hsnd.symm, hbefore, hrun, hafter⟩

/-- **A table of a schema can stand alone**: its walk finds nothing that the walk of the schema has
not found in order. -/
theorem exists_walkSchema_of_mem_tables {binder : Binder η ε} {alone : Binder θ δ}
    (hset : settings.IsValid) (hkeyed : schema.isKeyed = true) {models : Entries String η}
    (hok : (compile binder settings (.map schema)).result = .ok models)
    (htakes : ∀ before d, ∃ handle, alone.create before d = .ok handle) {t : Pointer × Tree}
    (ht : t ∈ (Tree.ofFields schema).tables) (log : List Event) :
    ∃ (v : Visit θ) (s : Stage θ),
      walkSchema alone settings t.2.fields log = (.ok v, s.registry) ∧
      (Stage.start log).Performs ⟨settings, alone⟩ (compileActs alone settings t.2.fields) s := by
  obtain ⟨-, -, -, -, hnames⟩ := exists_finished binder hset hkeyed hok
  obtain ⟨-, hnode⟩ := Tree.ofFields_of_mem_tables hkeyed ht
  obtain ⟨before, after, hsplit⟩ := Tree.infix_tablesFrom [] (Tree.ofFields schema) ht
  refine exists_walkSchema alone hnode (fun n hn => ?_) (fun u hu => ?_) htakes log
  · exact Override.sound_of_isValid hset (isValid_of_result_eq_ok binder hok)
      ((Tree.walked_of_mem_tables ht).trans hn)
  · obtain ⟨k, hk⟩ := List.getElem?_of_mem hu
    have hplace := Tree.getElem?_of_tables_eq_append hkeyed ht hsplit.symm hk
    exact hnames (t.1 ++ u.1, u.2) (List.mem_of_getElem? hplace)

/-- How a table `t` of a schema and the tables inside it stand in a compilation: `run` are these
tables with their descriptors, and `registry` is what their own walk has left. -/
structure MountedRun (binder : Binder η ε) (alone : Binder θ δ) (settings : Settings)
    (schema : Fields) (t : Pointer × Tree) (registry : Registry θ)
    (before run after : List ((Pointer × Tree) × Descriptor η)) (handles : List η)
    (handles₀ : List θ) : Prop where
  tables : (Tree.ofFields schema).tables = (before ++ run ++ after).map (·.1)
  registered : (compile binder settings (.map schema)).tables = (before ++ run ++ after).map (·.2)
  part : run.map (·.1) = Tree.tablesFrom t.1 t.2
  gives : binder.Gives (compile binder settings (.map schema)).tables handles
  gives₀ : alone.Gives registry.descriptors handles₀
  /-- One by one, the descriptors of the part correspond to those that it has alone. -/
  mounted : List.Forall₂ (fun d₀ p => d₀.1.Mounted settings.foreignKey
      (fun table column => ∃ q ∈ before ++ after,
        q.2.Requests ⟨settings, binder⟩ q.1.2 table column)
      ((registry.descriptors.take d₀.2).map Descriptor.schema)
      ((run.take d₀.2).map fun q => q.2.schema) (handles₀.take d₀.2)
      ((handles.drop before.length).take d₀.2) p.2)
    registry.descriptors.zipIdx run

/-- **A table compiles in the same way wherever it stands.** If a schema compiles, each of its
tables can be walked alone, with a binder that refuses nothing and has the same words. The tables at
and below it are registered in the schema one after the other, and their descriptors correspond one
by one: they have the same names, the same relations, to tables at corresponding places, and the
same columns, but for foreign keys that relations of tables outside have asked for. -/
theorem compile_mounted (binder : Binder η ε) (alone : Binder θ δ) (hset : settings.IsValid)
    (hkeyed : schema.isKeyed = true) (hvirtual : alone.virtual = binder.virtual)
    (hone : alone.belongsToOne = binder.belongsToOne) (hmany : alone.hasMany = binder.hasMany)
    (htakes : ∀ before d, ∃ handle, alone.create before d = .ok handle)
    {models : Entries String η} (hok : (compile binder settings (.map schema)).result = .ok models)
    {t : Pointer × Tree} (ht : t ∈ (Tree.ofFields schema).tables) (log : List Event) :
    ∃ v registry, walkSchema alone settings t.2.fields log = (.ok v, registry) ∧
      ∃ before run after handles handles₀, MountedRun binder alone settings schema t registry
        before run after handles handles₀ := by
  obtain ⟨s, hrun, -, houtcome, -⟩ := exists_finished binder hset hkeyed hok
  obtain ⟨v, s₀, hwalk, hrun₀⟩ :=
    exists_walkSchema_of_mem_tables hset hkeyed hok htakes ht log
  obtain ⟨earlier, later, hsplit⟩ := Tree.infix_tablesFrom [] (Tree.ofFields schema) ht
  obtain ⟨before, run, after, htables, hdescriptors, rfl, hpart, rfl⟩ :=
    exists_pairs hrun.length_descriptors.symm hsplit.symm
  refine ⟨v, s₀.registry, hwalk, before, run, after, s.handles, s₀.handles, htables,
    houtcome.trans hdescriptors, hpart, houtcome ▸ hrun.gives, hrun₀.gives, ?_⟩
  have hcount : s₀.registry.descriptors.length = run.length := by
    rw [hrun₀.length_descriptors, Tree.length_tables_of_mem_tables hkeyed ht, ← hpart,
      List.length_map]
  refine forall₂_of_getElem? (List.length_zipIdx.trans hcount) fun k d₀ p hd₀ hp => ?_
  rw [List.getElem?_zipIdx, Nat.zero_add, Option.map_eq_some_iff] at hd₀
  obtain ⟨d₀, hd₀, rfl⟩ := hd₀
  have hlt := (List.getElem?_eq_some_iff.mp hp).1
  have hd : s.registry.descriptors[(before.map (·.1)).length + k]? = some p.2 := by
    rw [hdescriptors, List.getElem?_map, List.append_assoc, List.length_map,
      List.getElem?_append_right (by omega), Nat.add_sub_cancel_left,
      List.getElem?_append_left hlt, hp, Option.map_some]
  have hinside : (s.registry.descriptors.drop before.length).take k =
      (run.take k).map (·.2) := by
    rw [hdescriptors, ← List.map_drop, List.append_assoc, List.drop_left, ← List.map_take,
      List.take_append_of_le_length (by omega)]
  have hwords : ((⟨settings, alone⟩ : Walk.Setting θ δ).words : Walk.Setting Nat Unit) =
      (⟨settings, binder⟩ : Walk.Setting η ε).words := by
    simp [Walk.Setting.words, hvirtual, hone, hmany]
  have hmounted := mounted_of_getElem? hwords hkeyed hsplit.symm ht hrun hrun₀ hd₀ hd
  rw [List.length_map, hinside, List.map_map] at hmounted
  -- what is asked for outside is asked for by a relation of the descriptor there
  refine hmounted.mono fun column hasks => ?_
  rw [← List.map_append] at hasks
  refine exists_requests_of_asksIn hset hkeyed hok htables (houtcome.trans hdescriptors) ?_ hasks
  intro q hq
  rcases List.mem_append.mp hq with h | h <;> simp [h]

/-- A shelf with a label, and with rows of boxes, which stay in its schema. -/
def shelfSchema : Fields :=
  [(.text "$id", .text "shelf"), (.text "properties", .object
    [("rows", .object [("items", .object [("items", .object [("$id", .text "box")])])]),
      ("label", .object [("$id", .text "label")])])]

/-- A depot with shelves, and with boxes that are on no shelf. -/
def depotSchema : Fields :=
  [(.text "$id", .text "depot"), (.text "properties", .object
    [("shelves", .object [("items", .map shelfSchema)]),
      ("boxes", .object [("items", .object [("$id", .text "box")])])])]

/-- In the depot a shelf has a foreign key to it, and so have the boxes in its schema. -/
theorem compile_mounted_shelf :
    let t : Pointer × Tree :=
      ([.text "properties", .text "shelves", .text "items"], Tree.ofFields shelfSchema)
    ({} : Settings).IsValid ∧ depotSchema.isKeyed = true ∧
      (∀ before d, ∃ handle,
        (Binder.counting 7 : Binder Nat Empty).create before d = .ok handle) ∧
      (compile (Binder.counting : Binder Nat Empty) {} (.map depotSchema)).result =
        .ok [("box", 3), ("label", 1), ("shelf", 2), ("depot", 4)] ∧
      t ∈ (Tree.ofFields depotSchema).tables ∧
      ∃ v registry, walkSchema (Binder.counting 7 : Binder Nat Empty) {} t.2.fields [] =
          (.ok v, registry) ∧
        ∃ before run after handles handles₀,
          MountedRun (Binder.counting : Binder Nat Empty) (Binder.counting 7 : Binder Nat Empty) {}
            depotSchema t registry before run after handles handles₀ := by
  intro t
  have hkeyed : depotSchema.isKeyed = true := by decide
  have htakes : ∀ before d, ∃ handle,
      (Binder.counting 7 : Binder Nat Empty).create before d = .ok handle := fun _ _ => ⟨_, rfl⟩
  have hok : (compile (Binder.counting : Binder Nat Empty) {} (.map depotSchema)).result =
      .ok [("box", 3), ("label", 1), ("shelf", 2), ("depot", 4)] := by
    rfl
  have ht : t ∈ (Tree.ofFields depotSchema).tables := List.mem_of_getElem? (i := 2) rfl
  exact ⟨Settings.isValid_default, hkeyed, htakes, hok, ht,
    compile_mounted Binder.counting (Binder.counting 7) Settings.isValid_default hkeyed rfl rfl rfl
      htakes hok ht []⟩

end NestedTables
