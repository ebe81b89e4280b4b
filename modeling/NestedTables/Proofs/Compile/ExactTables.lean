import NestedTables.Proofs.Compile.Descriptors
import NestedTables.Proofs.Compile.Rewritten
import NestedTables.Proofs.Relational.Dumped

/-!
# Tables made of trees

A table that is registered is made of parts of the schema, of the schema of a foreign key, of the
kinds of relations, and of texts. If all these are trees of scalars that pass a test, such as the
documents that are written as they are, so is the descriptor of the table
(`Registry.IsTree.isTree_dump`).

A `Fragment` is a tree if the document is that it will be, as long as the tables that are put in
are trees. A mapping that is a tree stays one when a key gets a tree for its value and when entries
are left out; so a registry keeps the property when a table is registered
(`Registry.IsTree.register`) and when a foreign-key column is asked for
(`Registry.IsTree.request`).
-/

namespace NestedTables

variable {η : Type} {test : Scalar → Bool}

/-! ### What is emitted -/

/-- Whether what is emitted for a node is a tree of scalars that pass a test, as long as the schemas
of the tables that are put in are trees. -/
inductive Fragment.IsTree (test : Scalar → Bool) : Fragment → Prop
  | verbatim {v : Value} (h : v.isTreeOf test = true) : IsTree test (.verbatim v)
  | map {es : Entries Scalar Fragment} (hd : Entries.Distinct es)
      (htext : ∀ e ∈ es, e.1.isText = true) (h : ∀ e ∈ es, IsTree test e.2) : IsTree test (.map es)
  | table (place : Nat) : IsTree test (.table place)

namespace Fragment

variable {tables : List Fields} {es : Entries Scalar Fragment}

theorem isTree_map_iff : (Fragment.map es).IsTree test ↔ Entries.IsObject (IsTree test) es := by
  constructor
  · rintro (_ | ⟨hd, htext, h⟩)
    exact ⟨hd, htext, h⟩
  · exact fun h => .map h.distinct h.texts h.values

theorem IsTree.resolve (htables : ∀ t ∈ tables, (Value.map t).isTreeOf test = true) {f : Fragment}
    (h : f.IsTree test) : (f.resolve tables).isTreeOf test = true := by
  induction h with
  | verbatim h =>
    rw [Fragment.resolve]
    exact h
  | map hd htext _ ih =>
    rw [Fragment.resolve, resolveEntries_eq_mapValues, Value.isTreeOf_map_iff_isObject]
    have hobject : Entries.IsObject (fun f => (Fragment.resolve tables f).isTreeOf test = true) _ :=
      ⟨hd, htext, ih⟩
    exact hobject.mapValues fun _ h => h
  | table place =>
    rw [Fragment.resolve, List.getD_eq_getElem?_getD]
    cases hget : tables[place]? with
    | none => rfl
    | some t => exact htables t (List.mem_of_getElem? hget)

theorem isTree_resolveEntries (htables : ∀ t ∈ tables, (Value.map t).isTreeOf test = true)
    (h : Entries.IsObject (IsTree test) es) :
    (Value.map (resolveEntries tables es)).isTreeOf test = true := by
  have hresolve := (isTree_map_iff.mpr h).resolve htables
  rwa [Fragment.resolve] at hresolve

theorem isTree_of_mem_resolveAll {schemas : List (Entries Scalar Fragment)}
    (h : ∀ schema ∈ schemas, Entries.IsObject (IsTree test) schema) :
    ∀ t ∈ resolveAll schemas, (Value.map t).isTreeOf test = true := by
  induction schemas using List.reverseRecOn with
  | nil => simp [resolveAll]
  | append_singleton schemas schema ih =>
    have hbefore := ih fun schema hmem => h schema (List.mem_append_left _ hmem)
    rw [resolveAll_append_singleton]
    intro t ht
    rcases List.mem_append.mp ht with hmem | hmem
    · exact hbefore t hmem
    · obtain rfl := List.mem_singleton.mp hmem
      exact isTree_resolveEntries hbefore (h schema (by simp))

/-- What is in the place of the columns of a schema that is a tree. -/
theorem isObject_entries (h : Entries.IsObject (IsTree test) es) :
    Entries.IsObject (IsTree test) (((es.get? propertiesKey).bind entries?).getD []) := by
  cases hget : es.get? propertiesKey with
  | none => exact Entries.isObject_nil
  | some f =>
    have hf := h.of_get? hget
    cases f with
    | map columns => exact isTree_map_iff.mp hf
    | verbatim | table => exact Entries.isObject_nil

end Fragment

/-! ### Tables -/

/-- Whether the descriptor of a table will be a tree. -/
structure Draft.IsTree (test : Scalar → Bool) (d : Draft η) : Prop where
  schema : Entries.IsObject (Fragment.IsTree test) d.schema
  distinct : Entries.Distinct d.relations
  kinds : Relation.KindsTree test d.relations

namespace Draft

variable {d : Draft η} {foreignKey : Fields}

theorem IsTree.setColumns (h : d.IsTree test) {columns : Entries Scalar Fragment}
    (hcolumns : Entries.IsObject (Fragment.IsTree test) columns) :
    (d.setColumns columns).IsTree test where
  schema := h.schema.put rfl (Fragment.isTree_map_iff.mpr hcolumns)
  distinct := h.distinct
  kinds := h.kinds

theorem IsTree.withColumn (h : d.IsTree test)
    (hforeign : (Value.map foreignKey).isTreeOf test = true) (column : String) :
    (d.withColumn column foreignKey).IsTree test :=
  h.setColumns ((Fragment.isObject_entries h.schema).putNew rfl (.verbatim hforeign))

theorem IsTree.withColumns (h : d.IsTree test)
    (hforeign : (Value.map foreignKey).isTreeOf test = true) (columns : List String) :
    (d.withColumns columns foreignKey).IsTree test := by
  induction columns generalizing d with
  | nil => exact h
  | cons column columns ih => exact ih (h.withColumn hforeign column)

theorem IsTree.isTree_dump (ht : Scalar.PassesTexts test) (h : d.IsTree test) {schema : Fields}
    (hschema : (Value.map schema).isTreeOf test = true) :
    (d.describe schema).dump.isTreeOf test = true :=
  Descriptor.isTree_dump ht hschema h.distinct h.kinds

end Draft

/-! ### The registry -/

/-- Whether all pointers in a log to tables that are not visited can be written. -/
def Event.CanTell (log : List Event) : Prop :=
  ∀ p, Event.notVisited p ∈ log → Pointer.isWritable p = true

/-- Whether the descriptors of the registered tables are trees, and the log can be written. -/
structure Registry.IsTree (test : Scalar → Bool) (r : Registry η) : Prop where
  drafts : ∀ d ∈ r.drafts, d.IsTree test
  log : Event.CanTell r.log

theorem Event.canTell_append {log log' : List Event} :
    Event.CanTell (log ++ log') ↔ Event.CanTell log ∧ Event.CanTell log' := by
  simp only [CanTell, List.mem_append]
  exact ⟨fun h => ⟨fun p hp => h p (.inl hp), fun p hp => h p (.inr hp)⟩,
    fun h p hp => hp.elim (h.1 p) (h.2 p)⟩

namespace Registry

variable {r : Registry η}

theorem IsTree.noteAll (h : r.IsTree test) {es : List Event} (hes : Event.CanTell es) :
    (r.noteAll es).IsTree test where
  drafts := h.drafts
  log := Event.canTell_append.mpr ⟨h.log, hes⟩

theorem IsTree.register (h : r.IsTree test) {d : Draft η} (hd : d.IsTree test) (handle : η)
    (at_ : Pointer) (relations : Nat) : (r.register d handle at_ relations).IsTree test where
  drafts d' hd' := by
    rcases List.mem_append.mp hd' with hmem | hmem
    · exact h.drafts d' hmem
    · rwa [List.mem_singleton.mp hmem]
  log := by
    refine Event.canTell_append.mpr ⟨Event.canTell_append.mpr ⟨h.log, ?_⟩, ?_⟩
    · split <;> simp [Event.CanTell]
    · simp [Event.CanTell]

theorem IsTree.request (h : r.IsTree test) {foreignKey : Fields}
    (hforeign : (Value.map foreignKey).isTreeOf test = true) (table column : String) :
    (r.request table column foreignKey).IsTree test where
  drafts d' hd' := by
    obtain ⟨d, hd, rfl⟩ := List.mem_map.mp hd'
    split
    · exact (h.drafts d hd).withColumn hforeign column
    · exact h.drafts d hd
  log := by
    refine Event.canTell_append.mpr ⟨h.log, Event.canTell_append.mpr ⟨?_, ?_⟩⟩
    · split <;> simp [Event.CanTell]
    · simp [Event.CanTell]

/-- **The descriptors of a registry of trees** are trees. -/
theorem IsTree.isTree_dump (ht : Scalar.PassesTexts test) (h : r.IsTree test) :
    ∀ d ∈ r.descriptors, d.dump.isTreeOf test = true := by
  intro descriptor hmem
  have hschemas :
      ∀ t ∈ r.descriptors.map Descriptor.schema, (Value.map t).isTreeOf test = true := by
    rw [descriptors_eq, Draft.map_schema_describeAll]
    refine Fragment.isTree_of_mem_resolveAll fun schema hschema => ?_
    obtain ⟨d, hd, rfl⟩ := List.mem_map.mp hschema
    exact (h.drafts d hd).schema
  obtain ⟨i, hi⟩ := List.mem_iff_getElem?.mp hmem
  obtain ⟨d, hd, rfl⟩ := getElem?_descriptors hi
  have hexact := h.drafts d (List.mem_of_getElem? hd)
  refine hexact.isTree_dump ht (Fragment.isTree_resolveEntries (fun t hmem => ?_) hexact.schema)
  rw [List.map_take] at hmem
  exact hschemas t (List.mem_of_mem_take hmem)

end Registry

end NestedTables
