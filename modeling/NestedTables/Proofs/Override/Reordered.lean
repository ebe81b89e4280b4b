import NestedTables.Proofs.Override.Accepted
import NestedTables.Proofs.Override.JoinTable
import NestedTables.Proofs.Schema.Reordered

/-!
# Overrides and the order of properties

What a node says of itself stands under keys of its own, and none of these is `properties` or
`items`. So two nodes that differ in nothing but the order of properties have the same names and
the same join, and no rule tells them apart (`Fields.Reordered.noErrors`). The rules for joins also
look at the names of all tables, and these are the same as well. Therefore a schema is accepted in
one order as in any other (`Fields.Reordered.isValid_checkAll`).
-/

namespace NestedTables

/-- The key of an override is no word without a dash. -/
theorem Settings.key_ne (settings : Settings) (o : Override) {word : String}
    (h : '-' ∉ word.toList) : settings.key o ≠ word := by
  rintro rfl
  refine h ?_
  rw [key, keyWith, String.toList_append, List.mem_append]
  exact Or.inr (by cases o <;> decide)

namespace Fields.Reordered

variable {node node' : Fields} (h : node.Reordered node') {settings : Settings}
include h

/-! ### What a node says of itself -/

theorem override?_eq (o : Override) : settings.override? o node = settings.override? o node' :=
  h.value?_eq (settings.key_ne o (by decide)) (settings.key_ne o (by decide))

theorem name?_eq (o : Override) : node.name? settings o = node'.name? settings o := by
  rw [name?, name?, h.override?_eq, h.value?_eq (by decide) (by decide),
    h.value?_eq (by decide) (by decide)]

theorem names_eq : node.names settings = node'.names settings := by
  rw [names, names, modelName?, modelName?, tableName?, tableName?, h.name?_eq, h.name?_eq,
    Fields.idColumn, Fields.idColumn, h.override?_eq]

theorem idPath_eq : node.idPath settings = node'.idPath settings := by
  rw [Fields.idPath, Fields.idPath, h.names_eq]

theorem join_eq (owner : String) : node.join settings owner = node'.join settings owner := by
  rw [join, join, h.override?_eq, h.override?_eq]

/-! ### The rules -/

/-- **No rule tells the two nodes apart**, if it knows the same tables. -/
theorem noErrors {tables tables' : List String} (htables : tables ⊆ tables')
    (hnode : Override.NoErrors settings tables node) :
    Override.NoErrors settings tables' node' where
  texts o ho := by
    rw [Override.textComplaint?, ← h.override?_eq]
    exact hnode.texts o ho
  title := by
    have htitle := hnode.title
    rw [Override.titleComplaint?, Override.namesBoth, Fields.value, Fields.value] at htitle ⊢
    rwa [← h.override?_eq, ← h.override?_eq, ← h.isTable_eq, ← h.value?_eq (by decide) (by decide),
      ← h.value?_eq (by decide) (by decide)]
  through v hv := by
    obtain ⟨t, ht, source, target, hsource, htarget, heq, hmem⟩ :=
      Override.throughComplaint?_eq_none.mp (hnode.through v (h.override?_eq _ ▸ hv))
    exact Override.throughComplaint?_eq_none.mpr
      ⟨t, ht, source, target, hsource, htarget, heq, htables hmem⟩

/-- The visited nodes correspond. -/
theorem exists_walked (hkeyed : node.isKeyed = true) {sub : Fields} (hsub : node.Walked sub) :
    ∃ sub', node'.Walked sub' ∧ sub.Reordered sub' := by
  obtain ⟨way, hdown⟩ := (walked_iff_down? hkeyed).mp hsub
  obtain ⟨sub', hdown', hrel⟩ := h.exists_down? hkeyed (h.isKeyed hkeyed) hdown
  exact ⟨sub', (walked_iff_down? (h.isKeyed hkeyed)).mpr ⟨way, hdown'⟩, hrel⟩

theorem tableNames_subset (hkeyed : node.isKeyed = true) :
    node.tableNames settings ⊆ node'.tableNames settings := by
  intro name hname
  obtain ⟨table, hwalked, htable, hname⟩ := mem_tableNames_iff.mp hname
  obtain ⟨table', hwalked', hrel⟩ := h.exists_walked hkeyed hwalked
  exact mem_tableNames_iff.mpr
    ⟨table', hwalked', hrel.isTable_eq ▸ htable, (hrel.name?_eq _).symm.trans hname⟩

/-- **A schema in another order is accepted** if the schema is. -/
theorem isValid_checkAll (hkeyed : node.isKeyed = true)
    (hvalid : (Override.checkAll settings node).isValid = true) :
    (Override.checkAll settings node').isValid = true := by
  refine Override.isValid_iff_noErrors.mpr fun sub' hsub' => ?_
  obtain ⟨sub, hsub, hrel⟩ := h.symm.exists_walked (h.isKeyed hkeyed) hsub'
  exact hrel.symm.noErrors (h.tableNames_subset hkeyed)
    (Override.isValid_iff_noErrors.mp hvalid sub hsub)

end Fields.Reordered

end NestedTables
