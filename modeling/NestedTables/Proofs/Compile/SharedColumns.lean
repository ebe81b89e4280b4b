import NestedTables.Proofs.Compile.Relations

/-!
# Foreign keys that owners share

An array of tables that does not say how it is joined is joined by a foreign key of its tables,
which is named after the id path of the owner. In the name the dots of the id path are
underscores, and underscores stay as they are. So two owners have a foreign key each unless their
id paths differ in nothing but dots and underscores, and then they share one
(`compile_joinTo_eq_iff`). That can happen: `compile_joinTo_shared` is a schema where it does.

It cannot happen where the names of the tables have neither dots nor underscores and those of the
identity columns have no dots (`Outcome.ManyOf.joinTo_ne`).
-/

namespace NestedTables

variable {η ε : Type}

/-! ### Names of foreign keys -/

namespace ColumnRef

theorem toList_flatten_written (r : ColumnRef) :
    (flatten r.written).toList = (flatten r.table).toList ++ '_' :: (flatten r.column).toList := by
  simp [flatten, written]

/-- A text without dots is flat. -/
theorem flatten_eq_self {s : String} (h : '.' ∉ s.toList) : flatten s = s := by
  refine String.toList_injective ?_
  rw [flatten, String.toList_ofList, List.map_congr_left (g := id), List.map_id]
  exact fun c hc => if_neg (ne_of_mem_of_not_mem hc h)

/-- Whether the name of the table has neither dots nor underscores, and that of the column has no
dots. -/
structure Plain (r : ColumnRef) : Prop where
  dotless : '.' ∉ r.table.toList
  flat : '_' ∉ r.table.toList
  column : '.' ∉ r.column.toList

/-- **The name of a foreign key tells what it refers to** if that is a plain reference: the table
ends at the first underscore. -/
theorem eq_of_flatten_written {r r' : ColumnRef} (hr : r.Plain) (hr' : r'.Plain)
    (h : flatten r.written = flatten r'.written) : r = r' := by
  have hlists := congrArg String.toList h
  rw [toList_flatten_written, toList_flatten_written, flatten_eq_self hr.dotless,
    flatten_eq_self hr'.dotless, flatten_eq_self hr.column, flatten_eq_self hr'.column] at hlists
  have hbefore : ∀ t c : List Char, '_' ∉ t → (t ++ '_' :: c).takeWhile (· ≠ '_') = t := by
    intro t c ht
    rw [List.takeWhile_append_of_pos, List.takeWhile_cons_of_neg (by simp), List.append_nil]
    intro x hx
    simpa using ne_of_mem_of_not_mem hx ht
  have htable := congrArg (List.takeWhile (· ≠ '_')) hlists
  rw [hbefore _ _ hr.flat, hbefore _ _ hr'.flat] at htable
  rw [htable, List.append_cancel_left_eq, List.cons.injEq] at hlists
  obtain ⟨t, c⟩ := r
  obtain ⟨t', c'⟩ := r'
  rw [mk.injEq]
  exact ⟨String.toList_injective htable, String.toList_injective hlists.2⟩

end ColumnRef

/-! ### Relations to many -/

/-- The reference to the identity column of a table node. -/
def Fields.idRef (settings : Settings) (node : Fields) : ColumnRef :=
  ⟨(node.names settings).tableName, (node.names settings).idColumn⟩

/-- Whether a relation of an outcome stands for an array of tables that does not say how it is
joined; `owner` is the node of the table that has the relation. -/
def Outcome.ManyOf (outcome : Outcome η ε) (settings : Settings) (schema owner : Fields)
    (r : Relation η) : Prop :=
  ∃ (i : Nat) (t : Pointer × Tree) (d : Descriptor η), (Tree.ofFields schema).tables[i]? = some t ∧
    outcome.tables[i]? = some d ∧ t.2.fields = owner ∧
      ∃ a ∈ t.2.sites, a.child.fields.kind = .arrayOfTable ∧
        settings.override? .joinToColumn a.child.fields = none ∧
          settings.override? .joinThrough a.child.fields = none ∧ (a.name, r) ∈ d.relations

/-- An array that does not say how it is joined is joined by a foreign key. -/
theorem Fields.join_eq_foreignKey {settings : Settings} {array : Fields}
    (hcolumn : settings.override? .joinToColumn array = none)
    (hthrough : settings.override? .joinThrough array = none) (owner : String) :
    array.join settings owner = .foreignKey (ColumnRef.flatten owner) := by
  simp [join, hcolumn, hthrough]

variable {settings : Settings} {schema : Fields} {binder : Binder η ε}

/-- The descriptors of a compilation that gives a result describe the tables. -/
theorem describes_of_result_eq_ok (hset : settings.IsValid) (hkeyed : schema.isKeyed = true)
    {models : Entries String η}
    (hok : (compile binder settings (.map schema)).result = .ok models) {i : Nat}
    {t : Pointer × Tree} (ht : (Tree.ofFields schema).tables[i]? = some t) {d : Descriptor η}
    (hd : (compile binder settings (.map schema)).tables[i]? = some d) :
    d.Describes (⟨settings, binder⟩ : Walk.Setting η ε) t.2 := by
  obtain ⟨s, hperforms, -, htables, hnames⟩ := exists_finished binder hset hkeyed hok
  rw [htables] at hd
  have hregisters := Walk.registers_acts (⟨settings, binder⟩ : Walk.Setting η ε)
    hkeyed none none [] 0
  obtain ⟨r, built, hr, hbuilt, rfl⟩ := exists_built hperforms hd
  obtain ⟨t', ht', hregisters⟩ := exists_getElem?_of_forall₂ hregisters hr
  obtain rfl := Option.some.inj (ht.symm.trans ht')
  exact describes_of_registers hregisters (hnames t (List.mem_of_getElem? ht)) hbuilt _

namespace Outcome.ManyOf

variable {owner owner₁ owner₂ : Fields} {r r₁ r₂ : Relation η}

/-- **Such a relation is joined by a foreign key** of its target that is named after its owner. -/
theorem joinTo_eq (hset : settings.IsValid) (hkeyed : schema.isKeyed = true)
    {models : Entries String η}
    (hok : (compile binder settings (.map schema)).result = .ok models)
    (h : (compile binder settings (.map schema)).ManyOf settings schema owner r) :
    r.joinTo = r.targetTable ++ "." ++ ColumnRef.flatten (owner.idPath settings) := by
  obtain ⟨i, t, d, ht, hd, rfl, a, ha, hkind, hcolumn, hthrough, hmem⟩ := h
  have hdescribes := describes_of_result_eq_ok hset hkeyed hok ht hd
  -- the descriptor has one relation of this name, and it is that of the site
  have hsite : (a.name, (a.relation ⟨settings, binder⟩ (t.2.context settings) : Relation Unit)) ∈
      (d.relations.mapValues Relation.withoutTarget : Entries String (Relation Unit)) :=
    hdescribes.relations.symm.subset (List.mem_map.mpr ⟨a, ha, rfl⟩)
  obtain ⟨⟨name, r'⟩, hmem', heq⟩ := List.mem_map.mp hsite
  obtain ⟨rfl, heq⟩ := Prod.mk.inj heq
  have hget := Entries.get?_eq_some_of_mem hdescribes.distinct hmem
  rw [Entries.get?_eq_some_of_mem hdescribes.distinct hmem', Option.some.injEq] at hget
  subst hget
  have htable : a.child.fields.isTable = false := by
    rw [← Bool.not_eq_true, ← Fields.kind_eq_table_iff, hkind]
    decide
  have hjoinTo := congrArg Relation.joinTo heq
  have htarget := congrArg Relation.targetTable heq
  simp only [Site.relation, htable, Bool.false_eq_true, if_false,
    Fields.join_eq_foreignKey hcolumn hthrough] at hjoinTo htarget
  change r'.joinTo = _ at hjoinTo
  change r'.targetTable = _ at htarget
  rw [hjoinTo, htarget]
  rfl

/-- Owners with plain names have a foreign key each. -/
theorem joinTo_ne (hset : settings.IsValid) (hkeyed : schema.isKeyed = true)
    {models : Entries String η}
    (hok : (compile binder settings (.map schema)).result = .ok models)
    (h₁ : (compile binder settings (.map schema)).ManyOf settings schema owner₁ r₁)
    (h₂ : (compile binder settings (.map schema)).ManyOf settings schema owner₂ r₂)
    (hplain₁ : (owner₁.idRef settings).Plain) (hplain₂ : (owner₂.idRef settings).Plain)
    (htarget : r₁.targetTable = r₂.targetTable)
    (howners : owner₁.idPath settings ≠ owner₂.idPath settings) : r₁.joinTo ≠ r₂.joinTo := by
  intro heq
  rw [h₁.joinTo_eq hset hkeyed hok, h₂.joinTo_eq hset hkeyed hok, htarget,
    String.append_right_inj] at heq
  exact howners (congrArg ColumnRef.written (ColumnRef.eq_of_flatten_written hplain₁ hplain₂ heq))

end Outcome.ManyOf

/-- **Two relations to many have one foreign key** of their target exactly when the id paths of
their owners are the same with underscores for the dots. -/
theorem compile_joinTo_eq_iff (hset : settings.IsValid) (hkeyed : schema.isKeyed = true)
    (binder : Binder η ε) {models : Entries String η}
    (hok : (compile binder settings (.map schema)).result = .ok models) {owner₁ owner₂ : Fields}
    {r₁ r₂ : Relation η}
    (h₁ : (compile binder settings (.map schema)).ManyOf settings schema owner₁ r₁)
    (h₂ : (compile binder settings (.map schema)).ManyOf settings schema owner₂ r₂)
    (htarget : r₁.targetTable = r₂.targetTable) :
    r₁.joinTo = r₂.joinTo ↔
      ColumnRef.flatten (owner₁.idPath settings) = ColumnRef.flatten (owner₂.idPath settings) := by
  rw [h₁.joinTo_eq hset hkeyed hok, h₂.joinTo_eq hset hkeyed hok, htarget, String.append_right_inj]

/-! ### Owners that share a foreign key -/

/-- A table with a given identity column that has an array of notes. -/
def notedTable (name idColumn : String) : Fields :=
  [(.text "$id", .text name), (.text "x-relschema-id-column", .text idColumn),
    (.text "properties", .object
      [("notes", .object [("type", .text "array"), ("items", .object [("$id", .text "note")])])])]

/-- Orders and their lines, both with notes. The id paths are `order.line_no` and
`order_line.no`. -/
def notesSchema : Fields :=
  [(.text "properties", .object
    [("order", .map (notedTable "order" "line_no")), ("line", .map (notedTable "order_line" "no"))])]

/-- The relation to the notes of a table. -/
def notesRelation (note : Nat) (owner : String) : Relation Nat :=
  { kind := (Binder.counting : Binder Nat Empty).hasMany
    targetTable := "note"
    target := some note
    joinFrom := some owner
    joinTo := "note.order_line_no" }

/-- The descriptor of a table with notes. -/
def notedDescriptor (name idColumn : String) (note : Nat) : Descriptor Nat :=
  { modelName := name
    tableName := name
    idColumn := idColumn
    schema := [(.text "$id", .text name), (.text "properties", .map [])]
    relations := [("notes", notesRelation note (name ++ "." ++ idColumn))] }

theorem manyOf_order :
    (compile (Binder.counting : Binder Nat Empty) {} (.map notesSchema)).ManyOf {} notesSchema
      (notedTable "order" "line_no") (notesRelation 0 "order.line_no") :=
  ⟨1, _, notedDescriptor "order" "line_no" 0, rfl, rfl, rfl, _, List.mem_cons_self, by decide,
    by decide, by decide, List.mem_cons_self⟩

theorem manyOf_line :
    (compile (Binder.counting : Binder Nat Empty) {} (.map notesSchema)).ManyOf {} notesSchema
      (notedTable "order_line" "no") (notesRelation 2 "order_line.no") :=
  ⟨3, _, notedDescriptor "order_line" "no" 2, rfl, rfl, rfl, _, List.mem_cons_self, by decide,
    by decide, by decide, List.mem_cons_self⟩

theorem result_notesSchema :
    (compile (Binder.counting : Binder Nat Empty) {} (.map notesSchema)).result =
      .ok [("note", 2), ("order", 1), ("order_line", 3)] := by
  rfl

/-- **Owners with different id paths may share a foreign key.** -/
theorem compile_joinTo_shared :
    (compile (Binder.counting : Binder Nat Empty) {} (.map notesSchema)).result =
        .ok [("note", 2), ("order", 1), ("order_line", 3)] ∧
      ¬ ∀ (owner₁ owner₂ : Fields) (r₁ r₂ : Relation Nat),
        (compile (Binder.counting : Binder Nat Empty) {} (.map notesSchema)).ManyOf {} notesSchema
          owner₁ r₁ →
        (compile (Binder.counting : Binder Nat Empty) {} (.map notesSchema)).ManyOf {} notesSchema
          owner₂ r₂ →
        r₁.targetTable = r₂.targetTable → owner₁.idPath {} ≠ owner₂.idPath {} →
          r₁.joinTo ≠ r₂.joinTo := by
  refine ⟨result_notesSchema, fun h => ?_⟩
  exact h _ _ _ _ manyOf_order manyOf_line rfl (by decide) rfl

/-- The two relations to notes have one foreign key. -/
theorem compile_joinTo_eq_iff_notes :
    ({} : Settings).IsValid ∧ notesSchema.isKeyed = true ∧
      (compile (Binder.counting : Binder Nat Empty) {} (.map notesSchema)).result =
        .ok [("note", 2), ("order", 1), ("order_line", 3)] ∧
      (compile (Binder.counting : Binder Nat Empty) {} (.map notesSchema)).ManyOf {} notesSchema
        (notedTable "order" "line_no") (notesRelation 0 "order.line_no") ∧
      (compile (Binder.counting : Binder Nat Empty) {} (.map notesSchema)).ManyOf {} notesSchema
        (notedTable "order_line" "no") (notesRelation 2 "order_line.no") ∧
      (notesRelation 0 "order.line_no").targetTable =
        (notesRelation 2 "order_line.no").targetTable ∧
      ((notesRelation 0 "order.line_no").joinTo = (notesRelation 2 "order_line.no").joinTo ↔
        ColumnRef.flatten ((notedTable "order" "line_no").idPath {}) =
          ColumnRef.flatten ((notedTable "order_line" "no").idPath {})) := by
  have hkeyed : notesSchema.isKeyed = true := by decide
  exact ⟨Settings.isValid_default, hkeyed, result_notesSchema, manyOf_order, manyOf_line, rfl,
    compile_joinTo_eq_iff Settings.isValid_default hkeyed Binder.counting result_notesSchema
      manyOf_order manyOf_line rfl⟩

end NestedTables
