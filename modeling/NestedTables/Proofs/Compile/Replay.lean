import Mathlib.Data.List.Forall2
import Mathlib.Data.List.Induction
import NestedTables.Proofs.Compile.Act
import NestedTables.Proofs.Document.Pairs

/-!
# What a stage owes to the acts before it

Two mechanisms give a table its foreign-key columns. A column that is asked for is added to
the tables of the name that are there already; and a table that is registered later is given
all columns that have been asked for before. Whichever it was, at any stage a registered table
is the table as its node described it, with the columns that have been asked for so far, each
once and in the order in which they were first asked for. `Stage.Replays` says this, every act
preserves it (`Stage.Replays.step`), and so it holds at every stage of a run
(`Stage.Performs.replays`).

That a column is not added twice is seen on the table itself: adding a column that is there
changes nothing (`Draft.withColumn_of_mem`).
-/

namespace NestedTables

variable {η ε : Type}

namespace Draft

/-! ### Columns of a table -/

variable (d : Draft η) (columns : Entries Scalar Fragment) (column : String) (schema : Fields)

@[simp] theorem columns_setColumns : (d.setColumns columns).columns = columns := by
  simp [setColumns, Draft.columns, Entries.get?_put, Fragment.entries?]

/-- Setting columns twice is setting the last ones. -/
@[simp] theorem setColumns_setColumns (columns' : Entries Scalar Fragment) :
    (d.setColumns columns).setColumns columns' = d.setColumns columns' := by
  simp [setColumns, Entries.put_put]

/-- The columns of a list that the table does not have. -/
def missing (columns : List String) : List String :=
  columns.filter fun column => !d.columns.has (.text column)

/-- Foreign-key columns, as columns of a table. -/
def foreignKeys (schema : Fields) (columns : List String) : Entries Scalar Fragment :=
  columns.map fun column => (.text column, .verbatim (.map schema))

@[simp] theorem keys_foreignKeys (columns : List String) :
    Entries.keys (foreignKeys schema columns) = columns.map .text := by
  simp [foreignKeys, Entries.keys]

@[simp] theorem withColumns_nil : d.withColumns [] schema = d := rfl

@[simp] theorem withColumns_append_singleton (columns : List String) :
    d.withColumns (columns ++ [column]) schema =
      (d.withColumns columns schema).withColumn column schema := by
  simp [withColumns]

/-- Only the schema of a table changes when it is given columns. -/
theorem exists_withColumns_eq (columns : List String) :
    ∃ schema', d.withColumns columns schema = { d with schema := schema' } := by
  induction columns using List.reverseRecOn with
  | nil => exact ⟨d.schema, rfl⟩
  | append_singleton columns column ih =>
    obtain ⟨schema', h⟩ := ih
    exact ⟨_, by rw [withColumns_append_singleton, h, withColumn, setColumns]⟩

@[simp] theorem withColumns_modelName (columns : List String) :
    (d.withColumns columns schema).modelName = d.modelName := by
  obtain ⟨_, h⟩ := exists_withColumns_eq d schema columns
  rw [h]

@[simp] theorem withColumns_tableName (columns : List String) :
    (d.withColumns columns schema).tableName = d.tableName := by
  obtain ⟨_, h⟩ := exists_withColumns_eq d schema columns
  rw [h]

@[simp] theorem withColumns_idColumn (columns : List String) :
    (d.withColumns columns schema).idColumn = d.idColumn := by
  obtain ⟨_, h⟩ := exists_withColumns_eq d schema columns
  rw [h]

@[simp] theorem withColumns_relations (columns : List String) :
    (d.withColumns columns schema).relations = d.relations := by
  obtain ⟨_, h⟩ := exists_withColumns_eq d schema columns
  rw [h]

/-- The columns that are set are the only ones that count. -/
theorem setColumns_withColumns (columns : List String) (columns' : Entries Scalar Fragment) :
    (d.withColumns columns schema).setColumns columns' = d.setColumns columns' := by
  induction columns using List.reverseRecOn generalizing columns' with
  | nil => rfl
  | append_singleton columns column ih =>
    rw [withColumns_append_singleton, withColumn, setColumns_setColumns, ih]

/-- **Giving a table columns** puts those that it does not have behind its own. -/
theorem columns_withColumns {columns : List String} (hnodup : columns.Nodup) :
    (d.withColumns columns schema).columns =
      d.columns ++ foreignKeys schema (d.missing columns) := by
  induction columns using List.reverseRecOn with
  | nil => simp [missing, foreignKeys]
  | append_singleton columns column ih =>
    obtain ⟨hcolumns, -, hnew⟩ := List.nodup_append.mp hnodup
    have hcolumn : column ∉ columns := fun h => hnew column h column (by simp) rfl
    have hhas : (d.columns ++ foreignKeys schema (d.missing columns)).has (.text column) =
        d.columns.has (.text column) := by
      rw [Bool.eq_iff_iff, Entries.has_iff, Entries.has_iff, Entries.keys_append,
        keys_foreignKeys, List.mem_append]
      simp [missing, hcolumn]
    rw [withColumns_append_singleton, withColumn, columns_setColumns, ih hcolumns, Entries.putNew,
      hhas]
    cases hown : d.columns.has (.text column) <;> simp [missing, foreignKeys, hown]

/-- **Adding a column that is there changes nothing.** -/
theorem withColumn_of_mem {columns : List String} (hnodup : columns.Nodup)
    (hmem : column ∈ columns) :
    (d.withColumns columns schema).withColumn column schema = d.withColumns columns schema := by
  -- the column is there, as one of the table's own or as one that it has been given
  have hhas : (d.withColumns columns schema).columns.has (.text column) = true := by
    rw [columns_withColumns d schema hnodup, Entries.has_iff, Entries.keys_append,
      keys_foreignKeys, List.mem_append, ← Entries.has_iff]
    cases hown : d.columns.has (.text column) <;> simp [missing, hmem, hown]
  rw [withColumn, Entries.putNew, if_pos hhas]
  induction columns using List.reverseRecOn with
  | nil => simp at hmem
  | append_singleton columns last _ =>
    rw [withColumns_append_singleton, withColumn, columns_setColumns, setColumns_setColumns]

/-- The columns that are asked for stand in the schema under their key, and nothing else in it
changes. -/
theorem schema_withColumns {columns : List String} (hnodup : columns.Nodup)
    (h : d.schema.get? propertiesKey = some (.map d.columns)) :
    (d.withColumns columns schema).schema =
      d.schema.put propertiesKey
        (.map (d.columns ++ foreignKeys schema (d.missing columns))) := by
  rw [← columns_withColumns d schema hnodup]
  induction columns using List.reverseRecOn with
  | nil => exact (Entries.put_of_get? h).symm
  | append_singleton columns column _ =>
    rw [withColumns_append_singleton, withColumn, setColumns_withColumns, columns_setColumns]
    rfl

end Draft

namespace Stage

/-! ### The columns that have been asked for -/

theorem eraseDups_append_singleton (columns : List String) (column : String) :
    (columns ++ [column]).eraseDups =
      if column ∈ columns then columns.eraseDups else columns.eraseDups ++ [column] := by
  rw [List.eraseDups_append]
  by_cases h : column ∈ columns
  · rw [if_pos h]
    simp [List.removeAll, h]
  · rw [if_neg h]
    simp [List.removeAll, h, List.eraseDups_cons]

theorem nodup_eraseDups (columns : List String) : columns.eraseDups.Nodup := by
  induction columns using List.reverseRecOn with
  | nil => simp
  | append_singleton columns column ih =>
    rw [eraseDups_append_singleton]
    split
    · exact ih
    · next h =>
      rw [List.nodup_append]
      refine ⟨ih, by simp, ?_⟩
      rintro c hc c' hc' rfl
      exact h (List.mem_eraseDups.mp (List.mem_singleton.mp hc' ▸ hc))

/-- A registered table, as the acts so far have made it: with handles for its places, and with
the columns that they have asked for, each where it was first asked for. -/
def Built (settings : Settings) (done : List Act) (handles : List η) (d : Draft Nat)
    (built : Draft η) : Prop :=
  ∃ earlier, earlier <+: handles ∧
    built = (d.withHandles earlier).withColumns (Act.asked d.tableName done).eraseDups
      settings.foreignKey

/-- **What a stage owes to the acts before it.** -/
structure Replays (settings : Settings) (done : List Act) (s : Stage η) : Prop where
  columnsOf : ∀ table, s.registry.columnsOf table = (Act.asked table done).eraseDups
  drafts : List.Forall₂ (fun r d => Built settings done s.handles r.2 d) (Act.registered done)
    s.registry.drafts

variable {setting : Walk.Setting η ε} {settings : Settings} {s s' : Stage η}
  {done acts : List Act} {act : Act}

theorem replays_start (settings : Settings) (log : List Event) :
    Replays settings [] (start log : Stage η) where
  columnsOf _ := rfl
  drafts := .nil

theorem Built.tableName {handles : List η} {d : Draft Nat} {built : Draft η}
    (h : Built settings done handles d built) : built.tableName = d.tableName := by
  obtain ⟨earlier, -, rfl⟩ := h
  rw [Draft.withColumns_tableName, Draft.withHandles_tableName]

theorem Built.mono {handles handles' : List η} {d : Draft Nat} {built : Draft η}
    (h : Built settings done handles d built) (hhandles : handles <+: handles')
    (hasked : Act.asked d.tableName acts = Act.asked d.tableName done) :
    Built settings acts handles' d built := by
  obtain ⟨earlier, hearlier, rfl⟩ := h
  exact ⟨earlier, hearlier.trans hhandles, by rw [hasked]⟩

/-- A registered table when a column is asked for. If it is of the name it is given the column,
which changes nothing if the column has been asked for before. -/
theorem Built.request {handles : List η} {d : Draft Nat} {built : Draft η}
    (h : Built settings done handles d built) (table column : String) :
    Built settings (done ++ [.request table column]) handles d
      (if built.tableName = table then built.withColumn column settings.foreignKey else built) := by
  by_cases htable : built.tableName = table
  · rw [if_pos htable]
    obtain ⟨earlier, hearlier, rfl⟩ := h
    refine ⟨earlier, hearlier, ?_⟩
    rw [Draft.withColumns_tableName, Draft.withHandles_tableName] at htable
    rw [Act.asked_append, Act.asked_request, Act.asked_nil, if_pos htable.symm,
      eraseDups_append_singleton]
    split
    · next hmem =>
      exact Draft.withColumn_of_mem _ _ _ (nodup_eraseDups _) (List.mem_eraseDups.mpr hmem)
    · rw [Draft.withColumns_append_singleton]
  · rw [if_neg htable]
    refine h.mono List.prefix_rfl ?_
    rw [h.tableName] at htable
    rw [Act.asked_append, Act.asked_request, Act.asked_nil, if_neg (Ne.symm htable),
      List.append_nil]

theorem columnsOf_request (r : Registry η) (table table' column : String) (schema : Fields) :
    (r.request table column schema).columnsOf table' =
      if table = table' then
        (if column ∈ r.columnsOf table then r.columnsOf table
          else r.columnsOf table ++ [column])
      else r.columnsOf table' := by
  unfold Registry.columnsOf Registry.request
  rw [Entries.get?_put]
  by_cases h : table = table'
  · rw [if_pos h, if_pos h]
    simp [Registry.columnsOf]
  · rw [if_neg h, if_neg h]

/-- **Every act preserves it.** -/
theorem Replays.step (h : Replays setting.settings done s) (hdoes : s.Does setting act s') :
    Replays setting.settings (done ++ [act]) s' := by
  cases hdoes with
  | note events =>
    refine ⟨fun table => ?_, ?_⟩
    · rw [Act.asked_append, Act.asked_note, Act.asked_nil, List.append_nil]
      exact h.columnsOf table
    · rw [Act.registered_append, Act.registered_note, Act.registered_nil, List.append_nil]
      exact h.drafts.imp fun r d hbuilt => hbuilt.mono List.prefix_rfl (by simp)
  | @register at_ d handle hanswer =>
    refine ⟨fun table => ?_, ?_⟩
    · rw [Act.asked_append, Act.asked_register, Act.asked_nil, List.append_nil]
      exact h.columnsOf table
    · rw [Act.registered_append, Act.registered_register, Act.registered_nil]
      -- the new table is given at once what the older ones have been given one by one
      have hnew : Built setting.settings (done ++ [.register at_ d]) (s.handles ++ [handle]) d
          (s.drafted setting.settings d) := by
        refine ⟨s.handles, List.prefix_append _ _, ?_⟩
        rw [Act.asked_append, Act.asked_register, Act.asked_nil, List.append_nil, drafted,
          h.columnsOf]
      refine List.rel_append (h.drafts.imp fun r b hbuilt => ?_) (.cons hnew .nil)
      exact hbuilt.mono (List.prefix_append _ _) (by simp)
  | request table column =>
    refine ⟨fun table' => ?_, ?_⟩
    · rw [Act.asked_append, Act.asked_request, Act.asked_nil]
      change (s.registry.request table column _).columnsOf table' = _
      rw [columnsOf_request]
      by_cases htable : table = table'
      · subst htable
        rw [if_pos rfl, if_pos rfl, h.columnsOf, eraseDups_append_singleton]
        simp only [List.mem_eraseDups]
      · rw [if_neg htable, if_neg htable, List.append_nil, h.columnsOf]
    · rw [Act.registered_append, Act.registered_request, Act.registered_nil, List.append_nil]
      refine List.forall₂_map_right_iff.mpr (h.drafts.imp fun r b hbuilt => ?_)
      exact hbuilt.request table column

/-- **What holds at the stages of a run.** -/
theorem Performs.replays (h : s.Performs setting acts s')
    (hs : Replays setting.settings done s) : Replays setting.settings (done ++ acts) s' := by
  induction h generalizing done with
  | nil => rwa [List.append_nil]
  | cons hdoes _ ih =>
    rw [List.append_cons]
    exact ih (hs.step hdoes)

end Stage

end NestedTables
