import NestedTables.Proofs.Compile.Asked
import NestedTables.Proofs.Compile.Compilation
import NestedTables.Proofs.Compile.Descriptors
import NestedTables.Proofs.Compile.OwnColumns

/-!
# The columns of a compiled schema

At every stage of a compilation a table that has been registered has the columns of its own node,
and behind them the foreign-key columns that have been asked for of the tables of its name, each
where it was first asked for (`Walk.columnsAfter`). Whether a column was asked for before the
table was registered or later makes no difference, and neither does how the compilation will end.

Nothing that has become a column of a table is moved, taken away or changed
(`Walk.columnsAfter_prefix`), save that a table inside it is always seen as its own descriptor is
by then.

When the compilation gives a result, the columns that have been asked for are those of the arrays
of tables that do not say how they are joined (`compile_columns`).
-/

namespace NestedTables

variable {η ε : Type}

/-! ### The columns after some acts -/

namespace Walk

variable (setting : Setting η ε)

/-- The columns of a table after some acts: its own, and behind them the foreign-key columns that
have been asked for of the tables of its name, save for names that it has already. -/
def columnsAfter (start : Nat) (table : Fields) (acts : List Act) : Entries Scalar Fragment :=
  let own := ownColumns setting start table
  let asked := (Act.asked (table.names setting.settings).tableName acts).eraseDups
  own ++ Draft.foreignKeys setting.settings.foreignKey
    (asked.filter fun column => !own.has (.text column))

theorem eraseDups_prefix {columns columns' : List String} (h : columns <+: columns') :
    columns.eraseDups <+: columns'.eraseDups := by
  obtain ⟨later, rfl⟩ := h
  rw [List.eraseDups_append]
  exact List.prefix_append _ _

/-- **Columns stay where they are.** -/
theorem columnsAfter_prefix (start : Nat) (table : Fields) {acts acts' : List Act}
    (h : acts <+: acts') :
    columnsAfter setting start table acts <+: columnsAfter setting start table acts' := by
  obtain ⟨later, rfl⟩ := h
  have hasked := eraseDups_prefix
    (List.prefix_append (Act.asked (table.names setting.settings).tableName acts)
      (Act.asked (table.names setting.settings).tableName later))
  rw [← Act.asked_append] at hasked
  unfold columnsAfter Draft.foreignKeys
  exact (List.prefix_append_right_inj _).mpr ((hasked.filter _).map _)

/-- Whether a table, with its place among the tables, is registered under its name and with the
columns of its node. -/
def RegistersOwn (t : (Pointer × Tree) × Nat) (r : Pointer × Draft Nat) : Prop :=
  r.2.tableName = (t.1.2.fields.names setting.settings).tableName ∧
    ∃ start, start + t.1.2.tableCount = t.2 + 1 ∧
      r.2.schema.get? propertiesKey = some (.map (ownColumns setting start t.1.2.fields))

/-- **The acts of a walk register every table** with the columns of its node. -/
theorem registersOwn_acts {node : Fields} (hkeyed : node.isKeyed = true) (above : Option Context)
    (step : Option Step) (at_ : Pointer) (start : Nat) :
    List.Forall₂ (RegistersOwn setting)
      ((Tree.tablesFrom at_ (Tree.ofFields node)).zipIdx start)
      (Act.registered (acts setting above step at_ start (Tree.ofFields node))) := by
  refine forall₂_registered_acts (fun table at_ start hkeyed htable => ?_) hkeyed above step at_
    start
  refine ⟨rfl, start, ?_, schema_outlineDraft setting hkeyed start⟩
  rw [Tree.ofFields_eq_node, Tree.tableCount_node, if_pos htable, Nat.add_assoc]

end Walk

namespace Stage

/-- The columns of a registered table at a stage. -/
theorem Built.columns {setting : Walk.Setting η ε} {done : List Act} {handles : List η}
    {t : (Pointer × Tree) × Nat} {r : Pointer × Draft Nat} {built : Draft η}
    (h : Built setting.settings done handles r.2 built) (hr : Walk.RegistersOwn setting t r) :
    ∃ start, start + t.1.2.tableCount = t.2 + 1 ∧
      built.schema.get? propertiesKey =
        some (.map (Walk.columnsAfter setting start t.1.2.fields done)) := by
  obtain ⟨earlier, -, rfl⟩ := h
  obtain ⟨htable, start, hstart, hschema⟩ := hr
  have hown : r.2.columns = Walk.ownColumns setting start t.1.2.fields := by
    rw [Draft.columns, hschema]
    rfl
  refine ⟨start, hstart, ?_⟩
  rw [Draft.schema_withColumns _ _ (nodup_eraseDups _) (by simpa [hown] using hschema),
    Entries.get?_put, if_pos rfl]
  simp [Draft.missing, Walk.columnsAfter, hown, htable]

/-- Whether the descriptor at a place of a stage has some columns. A table that stands inside one
of them is seen as its own descriptor. -/
def HasColumns (s : Stage η) (place : Nat) (columns : Entries Scalar Fragment)
    (d : Descriptor η) : Prop :=
  s.registry.descriptors[place]? = some d ∧
    d.schema.get? propertiesKey = some (.map (Fragment.resolveEntries
      ((s.registry.descriptors.take place).map Descriptor.schema) columns))

end Stage

variable {settings : Settings} {schema : Fields} {binder : Binder η ε}

/-- **The columns at a stage.** -/
theorem exists_hasColumns (hkeyed : schema.isKeyed = true) {done : List Act} {s : Stage η}
    (hdone : done <+: compileActs binder settings schema)
    (h : (Stage.start (checkLog settings schema)).Performs ⟨settings, binder⟩ done s)
    {i : Nat} {d : Descriptor η} (hd : s.registry.descriptors[i]? = some d) :
    ∃ t start, (Tree.ofFields schema).tables[i]? = some t ∧ start + t.2.tableCount = i + 1 ∧
      d.tableName = (t.2.fields.names settings).tableName ∧
        s.HasColumns i (Walk.columnsAfter ⟨settings, binder⟩ start t.2.fields done) d := by
  have hregisters := Walk.registersOwn_acts (⟨settings, binder⟩ : Walk.Setting η ε) hkeyed
    none none [] 0
  have hbegin : Act.registered done <+: Act.registered (compileActs binder settings schema) := by
    obtain ⟨later, hlater⟩ := hdone
    rw [← hlater, Act.registered_append]
    exact List.prefix_append _ _
  -- the table as it was built, as it was registered, and as it stands in the schema
  obtain ⟨r, built, hr, hmade, rfl⟩ := exists_built h hd
  obtain ⟨hi, hget⟩ := List.getElem?_eq_some_iff.mp hr
  obtain ⟨⟨t, i'⟩, ht, hown⟩ := exists_getElem?_of_forall₂ hregisters
    ((List.prefix_iff_getElem?.mp hbegin i hi).trans (congrArg some hget))
  rw [List.getElem?_zipIdx, Option.map_eq_some_iff] at ht
  obtain ⟨_, ht, heq⟩ := ht
  obtain ⟨rfl, rfl⟩ := Prod.mk.inj heq
  rw [Nat.zero_add] at hown
  obtain ⟨start, hstart, hcolumns⟩ := hmade.columns hown
  refine ⟨_, start, ht, hstart, hmade.tableName.trans hown.1, hd, ?_⟩
  rw [Draft.describe, Fragment.get?_resolveEntries, hcolumns, Option.map_some, Fragment.resolve]

/-- There is a descriptor for every table that has been registered. -/
theorem length_descriptors {setting : Walk.Setting η ε} {log : List Event} {done : List Act}
    {s : Stage η} (h : (Stage.start log).Performs setting done s) :
    s.registry.descriptors.length = (Act.registered done).length := by
  have hreplays := h.replays (Stage.replays_start setting.settings log)
  rw [List.nil_append] at hreplays
  rw [Registry.descriptors_eq, Draft.length_describeAll]
  exact hreplays.drafts.length_eq.symm

/-- **The columns that have been asked for** when all acts have been performed. -/
theorem mem_asked_compileActs_iff (hkeyed : schema.isKeyed = true)
    (hvalid : (Override.checkAll settings schema).isValid = true) {table column : String} :
    column ∈ Act.asked table (compileActs binder settings schema) ↔
      ∃ t ∈ (Tree.ofFields schema).tables, ∃ a ∈ t.2.sites,
        a.child.fields.kind = .arrayOfTable ∧ (a.target.names settings).tableName = table ∧
          settings.override? .joinToColumn a.child.fields = none ∧
            settings.override? .joinThrough a.child.fields = none ∧
              column = ColumnRef.flatten (t.2.fields.idPath settings) := by
  rw [compileActs, Walk.mem_asked_acts_root _ hkeyed]
  refine exists_congr fun t => and_congr_right fun ht => exists_congr fun a =>
    and_congr_right fun ha => and_congr_right fun _ => and_congr_right fun _ => ?_
  -- the array has been visited, so what it says of its join has been checked
  have hwalked := Tree.walked_of_mem_sites hkeyed ht ha
  exact Override.join_eq_foreignKey_iff (Override.isValid_iff_noErrors.mp hvalid _ hwalked)

/-- **At every stage of a compilation every table has the columns that it should have.** A
compilation, however it ends, performs the first acts of the schema. At any stage, a descriptor
has the columns of its own node and behind them the foreign keys that the acts so far have asked
for; at a later stage these columns are still there, at the front. If the compilation gives a
result, the foreign keys asked for of the tables of a name are those of the tables with an array
of such tables that does not say how it is joined. -/
theorem compile_columns (hset : settings.IsValid) (hkeyed : schema.isKeyed = true)
    (binder : Binder η ε) :
    let setting : Walk.Setting η ε := ⟨settings, binder⟩
    let outcome := compile binder settings (.map schema)
    let first : Stage η := .start (checkLog settings schema)
    ∃ (done : List Act) (last : Stage η), done <+: compileActs binder settings schema ∧
      first.Performs setting done last ∧ last.registry.descriptors = outcome.tables ∧
      (∀ earlier middle later, done = earlier ++ (middle ++ later) → ∃ s s' : Stage η,
        first.Performs setting earlier s ∧ s.Performs setting middle s' ∧
          s'.Performs setting later last ∧
        ∀ i d, s.registry.descriptors[i]? = some d → ∃ t start d',
          (Tree.ofFields schema).tables[i]? = some t ∧ start + t.2.tableCount = i + 1 ∧
          d.tableName = (t.2.fields.names settings).tableName ∧ d'.tableName = d.tableName ∧
          s.HasColumns i (Walk.columnsAfter setting start t.2.fields earlier) d ∧
          s'.HasColumns i (Walk.columnsAfter setting start t.2.fields (earlier ++ middle)) d' ∧
          Walk.columnsAfter setting start t.2.fields earlier <+:
            Walk.columnsAfter setting start t.2.fields (earlier ++ middle)) ∧
      (∀ models, outcome.result = .ok models → ∀ table column,
        (column ∈ Act.asked table done ↔ ∃ t ∈ (Tree.ofFields schema).tables, ∃ a ∈ t.2.sites,
          a.child.fields.kind = .arrayOfTable ∧ (a.target.names settings).tableName = table ∧
          settings.override? .joinToColumn a.child.fields = none ∧
          settings.override? .joinThrough a.child.fields = none ∧
          column = ColumnRef.flatten (t.2.fields.idPath settings))) := by
  intro setting outcome first
  obtain ⟨done, last, hdone, hperforms, htables, hok⟩ :=
    exists_performs binder hset hkeyed
  refine ⟨done, last, hdone, hperforms, htables, ?_, ?_⟩
  · rintro earlier middle later rfl
    obtain ⟨s, hearlier, hrest⟩ := hperforms.split
    obtain ⟨s', hmiddle, hlater⟩ := hrest.split
    refine ⟨s, s', hearlier, hmiddle, hlater, fun i d hd => ?_⟩
    rw [← List.append_assoc] at hdone
    have hboth := hearlier.trans hmiddle
    obtain ⟨t, start, ht, hstart, hname, hcolumns⟩ := exists_hasColumns hkeyed
      (((List.prefix_append _ _).trans (List.prefix_append _ _)).trans hdone) hearlier hd
    -- the table is still there at the later stage, at the same place
    have hi : i < s'.registry.descriptors.length := by
      have hlength := (List.getElem?_eq_some_iff.mp hd).1
      rw [length_descriptors hearlier] at hlength
      rw [length_descriptors hboth, Act.registered_append, List.length_append]
      omega
    obtain ⟨t', start', ht', hstart', hname', hcolumns'⟩ := exists_hasColumns hkeyed
      ((List.prefix_append _ _).trans hdone) hboth (List.getElem?_eq_getElem hi)
    -- and it is the same table, since its place determines it
    obtain rfl := Option.some.inj (ht.symm.trans ht')
    obtain rfl : start = start' := by omega
    exact ⟨t, start, _, ht, hstart, hname, hname'.trans hname.symm, hcolumns, hcolumns',
      Walk.columnsAfter_prefix setting start _ (List.prefix_append _ _)⟩
  · intro models hresult table column
    rw [hok models hresult]
    exact mem_asked_compileActs_iff hkeyed (isValid_of_result_eq_ok binder hresult)

/-- A firm with a staff and with addresses, where an employee has addresses too. The addresses of
the firm say themselves which firm they are of. -/
def firmSchema : Fields :=
  let addresses (columns : List (String × Value)) : Value := .object
    [("type", .text "array"),
      ("items", .object [("$id", .text "address"), ("properties", .object columns)])]
  [(.text "$id", .text "firm"),
    (.text "properties", .object
      [("staff", .object
        [("type", .text "array"),
          ("items", .object
            [("$id", .text "employee"), ("properties", .object [("addresses", addresses [])])])]),
        ("addresses", addresses [("firm_id", .object [("type", .text "integer")])])])]

/-- Both tables of addresses get both columns, in the order in which they have come by them. -/
theorem compile_columns_firm :
    ({} : Settings).IsValid ∧ firmSchema.isKeyed = true ∧
      ((compile (Binder.counting : Binder Nat Empty) {} (.map firmSchema)).tables.map fun d =>
          (d.tableName, ((d.schema.value propertiesKey.plain).fields?.getD []).keys)) =
        [("address", [.text "employee_id", .text "firm_id"]), ("employee", [.text "firm_id"]),
          ("address", [.text "firm_id", .text "employee_id"]), ("firm", [])] ∧
      ∃ (done : List Act) (last : Stage Nat),
        (Stage.start (checkLog {} firmSchema)).Performs
          ⟨{}, (Binder.counting : Binder Nat Empty)⟩ done last ∧
        last.registry.descriptors =
          (compile (Binder.counting : Binder Nat Empty) {} (.map firmSchema)).tables := by
  have hkeyed : firmSchema.isKeyed = true := by decide
  refine ⟨Settings.isValid_default, hkeyed, rfl, ?_⟩
  obtain ⟨done, last, -, hperforms, htables, -⟩ := compile_columns Settings.isValid_default hkeyed
    (Binder.counting : Binder Nat Empty)
  exact ⟨done, last, hperforms, htables⟩

end NestedTables
