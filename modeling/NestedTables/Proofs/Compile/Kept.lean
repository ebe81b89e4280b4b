import NestedTables.Proofs.Compile.Corresponds
import NestedTables.Proofs.Compile.Schemas

/-!
# What stays of a table node

A compiled table has the entries of its node, its properties and its items apart, as they are, save
for the override keys (`exists_kept`). And a property that does not become an array of tables has a
column, unless the binder keeps the name for itself: under its own name, or if it is a table, under
the name of the foreign key to it.
-/

namespace NestedTables

variable {η ε : Type}

/-- Filtering by the key filters the keys. -/
theorem Entries.mem_keys_filter {κ α : Type} {keep : κ → Bool} {k : κ} {es : Entries κ α} :
    k ∈ keys (es.filter fun e => keep e.1) ↔ k ∈ keys es ∧ keep k = true := by
  simp only [keys, List.mem_map, List.mem_filter]
  constructor
  · rintro ⟨e, ⟨he, hkeep⟩, rfl⟩
    exact ⟨⟨e, he, rfl⟩, hkeep⟩
  · rintro ⟨⟨e, he, rfl⟩, hkeep⟩
    exact ⟨e, ⟨he, hkeep⟩, rfl⟩

/-- What is filtered out by its key is not there. -/
theorem Entries.get?_filter_of_not {κ α : Type} [DecidableEq κ] (keep : κ → Bool) {k : κ}
    (hk : keep k = false) (es : Entries κ α) :
    get? k (es.filter fun e => keep e.1) = none := by
  rw [get?_eq_none_iff, mem_keys_filter, hk]
  exact fun h => Bool.noConfusion h.2

theorem Entries.mem_keys_put {κ α : Type} [DecidableEq κ] {k k' : κ} {v : α} {es : Entries κ α} :
    k' ∈ keys (put k v es) ↔ k' ∈ keys es ∨ k' = k := by
  rw [keys_put]
  split
  · next h => exact ⟨Or.inl, fun h' => h'.elim id fun heq => heq ▸ h⟩
  · rw [List.mem_append, List.mem_singleton]

namespace Walk

variable {θ : Type} {setting : Setting η ε}

/-! ### Entries that stay -/

theorem get?_withoutOverrides (settings : Settings) (node : Fields) (key : String) :
    (withoutOverrides settings node).get? (.text key) =
      if settings.owns key = true then none else (node.value? key).map .verbatim := by
  have hfilter : withoutOverrides settings node =
      Entries.mapValues .verbatim (node.filter fun e => settings.keeps e.1) := rfl
  have hkeeps : settings.keeps (.text key) = !settings.owns key := rfl
  rw [hfilter, Entries.get?_mapValues]
  split
  · next howns =>
    rw [Entries.get?_filter_of_not _ (by rw [hkeeps, howns]; rfl), Option.map_none]
  · next howns =>
    rw [Entries.get?_filter _ (by rw [hkeeps, Bool.eq_false_iff.mpr howns]; rfl)]
    rfl

/-- Properties and items apart, the walk keeps an entry that is no override. -/
theorem get?_keptOf {key : String} (hproperties : key ≠ "properties") (hitems : key ≠ "items")
    (ctx : Option Context) (node : Fields) (results : Entries Step (Visit η)) :
    (keptOf setting ctx node results).get? (.text key) =
      if setting.settings.owns key = true then none else (node.value? key).map .verbatim := by
  have hne : Scalar.text "items" ≠ .text key := fun h => hitems (Scalar.text.inj h).symm
  have hne' : propertiesKey ≠ .text key := fun h => hproperties (Scalar.text.inj h).symm
  rw [← get?_withoutOverrides]
  unfold keptOf
  cases node.mapping? "properties" <;> cases results.get? .items <;>
    simp [Entries.get?_put, hne, hne']

/-! ### Columns that properties have -/

/-- The key of the column that a property becomes, if it becomes one. -/
def columnKey? (e : Scalar × Value) : Option Scalar :=
  match e.2.nodeKind with
  | .table => some (.text (stub e.1))
  | .arrayOfTable => none
  | _ => some e.1

theorem mem_keys_withColumnOf {settings : Settings} {results : Entries Step (Visit θ)}
    {columns : Entries Scalar Fragment} {e : Scalar × Value} {k : Scalar} :
    k ∈ Entries.keys (withColumnOf settings results columns e) ↔
      k ∈ Entries.keys columns ∨ columnKey? e = some k := by
  obtain ⟨name, v⟩ := e
  cases hv : v.fields? with
  | none =>
    have hkind : v.nodeKind = .scalar := by
      cases v <;> simp_all [Value.nodeKind, Value.fields?]
    simp [withColumnOf, columnKey?, hv, hkind, Entries.mem_keys_put, eq_comm]
  | some sub =>
    obtain rfl : v = .map sub := by
      cases v <;> simp_all [Value.fields?]
    have hkind : Value.nodeKind (.map sub) = sub.kind := rfl
    cases hsub : sub.kind <;>
      simp [withColumnOf, columnKey?, hv, hkind, hsub, Entries.mem_keys_put, eq_comm]

theorem mem_keys_foldl_withColumnOf {settings : Settings} {results : Entries Step (Visit θ)}
    {columns : Entries Scalar Fragment} {es : Fields} {k : Scalar} :
    k ∈ Entries.keys (es.foldl (withColumnOf settings results) columns) ↔
      k ∈ Entries.keys columns ∨ ∃ e ∈ es, columnKey? e = some k := by
  induction es generalizing columns with
  | nil => simp
  | cons e es ih =>
    rw [List.foldl_cons, ih, mem_keys_withColumnOf, or_assoc]
    simp only [List.mem_cons, exists_eq_or_imp]

/-- **The keys of the columns of a node** are those that its properties become and that the binder
leaves to the tables. -/
theorem mem_keys_ownColumns {table properties : Fields}
    (hproperties : table.mapping? "properties" = some properties) {start : Nat} {k : Scalar} :
    k ∈ Entries.keys (ownColumns setting start table) ↔
      (∃ e ∈ properties, columnKey? e = some k) ∧ setting.leaves k = true := by
  rw [ownColumns, hproperties, Option.getD_some, Entries.mem_keys_filter,
    mem_keys_foldl_withColumnOf]
  simp [Entries.keys]

end Walk

variable {settings : Settings} {schema : Fields} {binder : Binder η ε}

/-- **What stays of the node of a compiled table.** -/
theorem exists_kept (hset : settings.IsValid) (hkeyed : schema.isKeyed = true)
    {models : Entries String η}
    (hok : (compile binder settings (.map schema)).result = .ok models) {i : Nat}
    {t : Pointer × Tree} (ht : (Tree.ofFields schema).tables[i]? = some t) {d : Descriptor η}
    (hd : (compile binder settings (.map schema)).tables[i]? = some d) :
    (∀ key, key ≠ "properties" → key ≠ "items" → d.schema.value? key =
      if settings.owns key = true then none else t.2.fields.value? key) ∧
    ∃ columns, d.schema.get? propertiesKey = some (.map columns) ∧
      ∀ properties, t.2.fields.mapping? "properties" = some properties → ∀ e ∈ properties, ∀ k,
        Walk.columnKey? e = some k → Walk.Setting.leaves ⟨settings, binder⟩ k = true →
          k ∈ Entries.keys columns := by
  obtain ⟨s, hperforms, -, htables, -⟩ := exists_finished binder hset hkeyed hok
  obtain ⟨start, -, hschema⟩ := exists_outlined hkeyed hperforms ht (htables ▸ hd)
  refine ⟨fun key hproperties hitems => ?_, ?_⟩
  · have hne : propertiesKey ≠ .text key := fun h => hproperties (Scalar.text.inj h).symm
    rw [Fields.value?, hschema, Fragment.get?_resolveEntries, Entries.get?_put, if_neg hne,
      Walk.get?_keptOf hproperties hitems]
    change (if settings.owns key = true then none else _).map _ = _
    split
    · rfl
    · cases t.2.fields.value? key <;> rfl
  · refine ⟨_, by rw [hschema, Fragment.get?_resolveEntries, Entries.get?_put, if_pos rfl]; rfl,
      fun properties hproperties e he k hkey hleaves => ?_⟩
    have hown : k ∈ Entries.keys (Walk.ownColumns ⟨settings, binder⟩ start t.2.fields) :=
      (Walk.mem_keys_ownColumns hproperties).mpr ⟨⟨e, he, hkey⟩, hleaves⟩
    rw [Fragment.resolveEntries_eq_mapValues, Entries.keys_mapValues, Walk.columnsAfter,
      Entries.keys_append]
    exact List.mem_append_left _ hown

end NestedTables
