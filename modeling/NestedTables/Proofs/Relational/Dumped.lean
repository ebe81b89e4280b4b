import NestedTables.Proofs.Document.Exact
import NestedTables.Relational.Descriptor

/-!
# Relations and descriptors as documents

A relation is written as an object of texts and of its kind, and a descriptor as one of texts, of
its schema and of its relations. So they are trees of scalars that pass a test if these parts are,
and if null and all texts pass it (`Descriptor.isTree_dump`).
-/

namespace NestedTables

variable {η : Type} {test : Scalar → Bool}

theorem Value.isTree_text (ht : Scalar.PassesTexts test) (s : String) :
    (Value.text s).isTreeOf test = true :=
  ht.text s

theorem Value.isTree_ofText? (ht : Scalar.PassesTexts test) (s : Option String) :
    (Value.ofText? s).isTreeOf test = true := by
  cases s with
  | none => exact ht.null
  | some s => exact ht.text s

theorem Value.isTree_texts (ht : Scalar.PassesTexts test) (ss : List String) :
    (Value.list (ss.map .text)).isTreeOf test = true := by
  rw [Value.isTreeOf, Value.itemsTreeOf_iff]
  intro v hv
  obtain ⟨s, -, rfl⟩ := List.mem_map.mp hv
  exact ht.text s

theorem Through.isTree_dump (ht : Scalar.PassesTexts test) (t : Through) :
    t.dump.isTreeOf test = true := by
  refine Value.isTreeOf_object (by decide : List.Nodup ["from", "to", "extra"]) ?_
  simp only [List.forall_mem_cons]
  exact ⟨Value.isTree_text ht _, Value.isTree_text ht _, Value.isTree_texts ht _, by simp⟩

/-- A relation is a tree if its kind is one. -/
theorem Relation.isTree_dump (ht : Scalar.PassesTexts test) {r : Relation η}
    (h : r.kind.isTreeOf test = true) : r.dump.isTreeOf test = true := by
  have hthrough : ((r.through.map Through.dump).getD .null).isTreeOf test = true := by
    cases r.through with
    | none => exact ht.null
    | some t => exact t.isTree_dump ht
  refine Value.isTreeOf_object
    (by decide : List.Nodup ["kind", "target_table", "join_from", "join_to", "join_through"]) ?_
  simp only [List.forall_mem_cons]
  exact ⟨h, Value.isTree_text ht _, Value.isTree_ofText? ht _, Value.isTree_text ht _, hthrough,
    by simp⟩

/-- Whether the kinds of relations are trees. -/
def Relation.KindsTree (test : Scalar → Bool) {κ : Type} (relations : Entries κ (Relation η)) :
    Prop :=
  ∀ e ∈ relations, e.2.kind.isTreeOf test = true

/-- **A descriptor is a tree** if its schema and the kinds of its relations are, and the relations
have different names. -/
theorem Descriptor.isTree_dump (ht : Scalar.PassesTexts test) {d : Descriptor η}
    (hschema : (Value.map d.schema).isTreeOf test = true) (hd : Entries.Distinct d.relations)
    (hkinds : Relation.KindsTree test d.relations) : d.dump.isTreeOf test = true := by
  have hrelations : (Value.object (d.relations.mapValues Relation.dump)).isTreeOf test = true := by
    refine Value.isTreeOf_object ?_ fun e he => ?_
    · rw [Entries.Distinct, Entries.keys_mapValues]
      exact hd
    · obtain ⟨e', he', rfl⟩ := List.mem_map.mp he
      exact Relation.isTree_dump ht (hkinds e' he')
  refine Value.isTreeOf_object
    (by decide : List.Nodup ["model_name", "table_name", "id_column", "schema", "relations"]) ?_
  simp only [List.forall_mem_cons]
  exact ⟨Value.isTree_text ht _, Value.isTree_text ht _, Value.isTree_text ht _, hschema,
    hrelations, by simp⟩

/-- The schema of a descriptor that is a tree is one. -/
theorem Descriptor.isTree_schema {d : Descriptor η} (h : d.dump.isTreeOf test = true) :
    (Value.map d.schema).isTreeOf test = true := by
  have hmem : ("schema", Value.map d.schema) ∈ [("model_name", .text d.modelName),
      ("table_name", .text d.tableName), ("id_column", .text d.idColumn), ("schema", .map d.schema),
      ("relations", .object (d.relations.mapValues Relation.dump))] := by simp
  exact Value.isTreeOf_of_mem_object h hmem

end NestedTables
