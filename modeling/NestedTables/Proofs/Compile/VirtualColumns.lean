import NestedTables.Proofs.Compile.Schemas

/-!
# Columns that the binder keeps for itself

The names of properties that a binder keeps for itself are left out of what a table node brings
with it: of its declared columns and of the foreign keys that tables under its properties leave.
A foreign key that an array of tables asks for is not held against these names, neither when a
table is registered and given what has been asked for, nor when a column is added to a table that
is there already. So of the names that the binder keeps for itself a table has those, and only
those, that some array asks for (`compile_virtual_columns`), and a virtual column can be emitted
(`compile_virtual_columns_emitted`).
-/

namespace NestedTables

variable {η ε : Type}

/-- A name is that of one of some foreign keys, or of none of them. -/
theorem Draft.get?_foreignKeys (foreignKey : Fields) (columns : List String) (name : String) :
    Entries.get? (.text name) (foreignKeys foreignKey columns) =
      if name ∈ columns then some (.verbatim (.map foreignKey)) else none := by
  induction columns with
  | nil => rfl
  | cons column columns ih =>
    change (if Scalar.text column = .text name then some _ else
      Entries.get? (.text name) (foreignKeys foreignKey columns)) = _
    rw [ih]
    by_cases h : column = name
    · rw [if_pos (congrArg Scalar.text h), if_pos (List.mem_cons.mpr (.inl h.symm))]
    · have hmem : name ∈ column :: columns ↔ name ∈ columns := by simp [Ne.symm h]
      rw [if_neg fun heq => h (Scalar.text.inj heq), if_congr hmem rfl rfl]

namespace Walk

variable {setting : Setting η ε} {name : String}

/-- A node brings no column with it that the binder keeps for itself. -/
theorem get?_ownColumns_of_virtual (h : name ∈ setting.binder.virtual) (start : Nat)
    (table : Fields) : Entries.get? (.text name) (ownColumns setting start table) = none := by
  rw [Entries.get?_eq_none_iff]
  intro hkey
  obtain ⟨e, he, hname⟩ := List.mem_map.mp hkey
  have hleaves : setting.leaves e.1 = true := (List.mem_filter.mp he).2
  rw [hname] at hleaves
  simp [Setting.leaves, h] at hleaves

/-- **A column that the binder keeps for itself** is there after some acts if one of them has asked
for it, and then it is a foreign key. -/
theorem get?_columnsAfter_of_virtual (h : name ∈ setting.binder.virtual) (start : Nat)
    (table : Fields) (acts : List Act) :
    Entries.get? (.text name) (columnsAfter setting start table acts) =
      if name ∈ Act.asked (table.names setting.settings).tableName acts then
        some (.verbatim (.map setting.settings.foreignKey))
      else none := by
  have hown := get?_ownColumns_of_virtual h start table
  have hasked : ∀ columns : List String, (name ∈ columns.eraseDups.filter fun column =>
      !(ownColumns setting start table).has (.text column)) ↔ name ∈ columns := by
    intro columns
    simp [List.mem_filter, List.mem_eraseDups, Entries.has, hown]
  rw [columnsAfter, Entries.get?_append, hown, Option.none_or, Draft.get?_foreignKeys,
    if_congr (hasked _) rfl rfl]

end Walk

variable {settings : Settings} {schema : Fields}

/-- **The columns that a binder keeps for itself.** At the end of a compilation that gives a
result, a table has such a column exactly if an array that does not say how it is joined asks for
it as a foreign key of the tables of that name, and the column is the foreign key. What the node of
the table declares under such a name, or would leave as a foreign key of its own, is not there. -/
theorem compile_virtual_columns (hset : settings.IsValid) (hkeyed : schema.isKeyed = true)
    (binder : Binder η ε) {models : Entries String η}
    (hok : (compile binder settings (.map schema)).result = .ok models) :
    ∀ d ∈ (compile binder settings (.map schema)).tables, ∀ name ∈ binder.virtual, ∀ v,
      Entries.get? (.text name) d.columns = some v ↔
        v = .map settings.foreignKey ∧ schema.AsksForColumn settings d.tableName name := by
  intro d hd name hname v
  have hvalid := isValid_of_result_eq_ok binder hok
  obtain ⟨s, hperforms, -, htables, -⟩ := exists_finished binder hset hkeyed hok
  obtain ⟨i, hi⟩ := List.mem_iff_getElem?.mp (htables ▸ hd)
  obtain ⟨t, start, -, -, htable, -, hcolumns⟩ :=
    exists_hasColumns hkeyed List.prefix_rfl hperforms hi
  have hget : Entries.get? (.text name) d.columns =
      if name ∈ Act.asked d.tableName (compileActs binder settings schema) then
        some (.map settings.foreignKey)
      else none := by
    rw [Descriptor.columns_eq hcolumns, Fragment.get?_resolveEntries,
      Walk.get?_columnsAfter_of_virtual hname, htable]
    split <;> rfl
  have hasked : name ∈ Act.asked d.tableName (compileActs binder settings schema) ↔
      schema.AsksForColumn settings d.tableName name := mem_asked_compileActs_iff hkeyed hvalid
  rw [hget, ← hasked]
  split
  · next h => rw [Option.some.injEq, and_iff_left h, eq_comm]
  · next h => simp [h]

/-- An order with lines, which does not say how they are joined. -/
def linedSchema : Fields :=
  [(.text "$id", .text "order"),
    (.text "properties", .object
      [("lines", .object
        [("type", .text "array"),
          ("items", .object
            [("$id", .text "line"),
              ("properties", .object [("note", .object []), ("amount", .object [])])])])])]

/-- A binder that keeps a declared column and a foreign key for itself. -/
def withholdingBinder : Binder Nat Empty :=
  { Binder.counting with virtual := ["order_id", "note"] }

theorem result_linedSchema :
    (compile withholdingBinder {} (.map linedSchema)).result =
      .ok [("line", 0), ("order", 1)] := by
  rfl

/-- **A virtual column can be emitted**: the lines have the foreign key to their order that the
binder keeps for itself. -/
theorem compile_virtual_columns_emitted :
    (compile withholdingBinder {} (.map linedSchema)).result =
        .ok [("line", 0), ("order", 1)] ∧
      ¬ ∀ d ∈ (compile withholdingBinder {} (.map linedSchema)).tables,
        ∀ name ∈ withholdingBinder.virtual, .text name ∉ Entries.keys d.columns := by
  refine ⟨result_linedSchema, fun h => ?_⟩
  have hcolumns : (compile withholdingBinder {} (.map linedSchema)).tables.map
      (fun d => Entries.keys d.columns) = [[.text "amount", .text "order_id"], []] := by
    rfl
  obtain ⟨d, hd, hkeys⟩ : ∃ d ∈ (compile withholdingBinder {} (.map linedSchema)).tables,
      Entries.keys d.columns = [.text "amount", .text "order_id"] :=
    List.mem_map.mp (hcolumns ▸ List.mem_cons_self)
  exact h d hd "order_id" (by decide) (by simp [hkeys])

/-- The columns of an order and its lines that are kept back. -/
theorem compile_virtual_columns_order :
    ({} : Settings).IsValid ∧ linedSchema.isKeyed = true ∧
      (compile withholdingBinder {} (.map linedSchema)).result =
        .ok [("line", 0), ("order", 1)] ∧
      ∀ d ∈ (compile withholdingBinder {} (.map linedSchema)).tables,
        ∀ name ∈ withholdingBinder.virtual, ∀ v,
          Entries.get? (.text name) d.columns = some v ↔
            v = .map ({} : Settings).foreignKey ∧
              linedSchema.AsksForColumn {} d.tableName name := by
  have hkeyed : linedSchema.isKeyed = true := by decide
  exact ⟨Settings.isValid_default, hkeyed, result_linedSchema,
    compile_virtual_columns Settings.isValid_default hkeyed withholdingBinder result_linedSchema⟩

end NestedTables
