import NestedTables.Proofs.Document.Exact
import NestedTables.Proofs.Schema.Walked

/-!
# Exact schemas

All nodes of a schema that is a tree, of whatever scalars, are such trees, and the keys on the way
to them are texts (`Fields.isTree_of_mem_nodes`). So all that a message may show of a schema can be
written if its scalars can: the pointers to its nodes, those to the tables that are not visited, and
the values of its nodes.
-/

namespace NestedTables

theorem Pointer.isWritable_append {p q : Pointer} (hp : p.isWritable = true)
    (hq : q.isWritable = true) : Pointer.isWritable (p ++ q) = true := by
  rw [isWritable, List.all_append, Bool.and_eq_true]
  exact ⟨hp, hq⟩

namespace Fields

variable {node : Fields} {test : Scalar → Bool}

/-! ### Below a node -/

theorem isTree_of_mapping? (h : (Value.map node).isTreeOf test = true) {key : String} {sub : Fields}
    (hsub : node.mapping? key = some sub) : (Value.map sub).isTreeOf test = true := by
  obtain ⟨v, hv, hfields⟩ := Option.bind_eq_some_iff.mp hsub
  have hexact := (Value.isTreeOf_map_iff_isObject.mp h).of_get? hv
  cases v <;> simp only [Value.fields?, Option.some.injEq, reduceCtorEq] at hfields
  rwa [← hfields]

theorem isTree_of_mem_children (h : (Value.map node).isTreeOf test = true) {c : Step × Fields}
    (hc : c ∈ node.children) : (Value.map c.2).isTreeOf test = true := by
  obtain ⟨step, sub⟩ := c
  cases step with
  | property k =>
    obtain ⟨props, hprops, hmem⟩ := property_mem_children_iff.mp hc
    exact (Value.isTreeOf_map_iff_isObject.mp (isTree_of_mapping? h hprops)).values _ hmem
  | items => exact isTree_of_mapping? h (items_mem_children_iff.mp hc)

/-- The keys on the way to a child are texts. -/
theorem isWritable_path_of_mem_children (h : (Value.map node).isTreeOf test = true)
    {c : Step × Fields} (hc : c ∈ node.children) : Pointer.isWritable c.1.path = true := by
  obtain ⟨step, sub⟩ := c
  cases step with
  | property k =>
    obtain ⟨props, hprops, hmem⟩ := property_mem_children_iff.mp hc
    have htext := (Value.isTreeOf_map_iff_isObject.mp (isTree_of_mapping? h hprops)).texts _ hmem
    obtain ⟨s, rfl⟩ := Scalar.isText_iff.mp htext
    rfl
  | items => rfl

/-- **The visited nodes of a tree** are trees, and the keys on the way to them are texts. -/
theorem isTree_of_mem_nodes (h : (Value.map node).isTreeOf test = true) :
    ∀ n ∈ node.nodes, Pointer.isWritable n.1 = true ∧ (Value.map n.2).isTreeOf test = true := by
  induction node using walkInduction with
  | h node ih =>
    rw [nodes_eq_flatMap]
    refine List.forall_mem_cons.mpr ⟨⟨rfl, h⟩, fun n hn => ?_⟩
    obtain ⟨c, hc, hmem⟩ := List.mem_flatMap.mp hn
    obtain ⟨below, hbelow, rfl⟩ := List.mem_map.mp hmem
    obtain ⟨hpointer, hexact⟩ := ih c hc (isTree_of_mem_children h hc) below hbelow
    exact ⟨Pointer.isWritable_append (isWritable_path_of_mem_children h hc) hpointer, hexact⟩

/-! ### What messages show -/

/-- The values of a node can be written if all scalars in it can. -/
theorem isWritable_of_value? (htest : ∀ s, test s = true → s.isWritable = true)
    (h : (Value.map node).isTreeOf test = true) {key : String} {v : Value}
    (hv : node.value? key = some v) : v.isWritable = true :=
  Value.isWritable_of_isTreeOf htest ((Value.isTreeOf_map_iff_isObject.mp h).of_get? hv)

theorem isWritable_value (htest : ∀ s, test s = true → s.isWritable = true)
    (h : (Value.map node).isTreeOf test = true) (key : String) :
    (node.value key).isWritable = true := by
  unfold value
  cases hv : node.value? key with
  | none => rfl
  | some v => exact isWritable_of_value? htest h hv

theorem isWritable_of_mem_tablesIn {keyword : String} {place : Nat} {vs : List Value}
    {p : Pointer} (hp : p ∈ tablesIn keyword place vs) : p.isWritable = true := by
  induction vs generalizing place with
  | nil => cases hp
  | cons v vs ih =>
    rcases List.mem_append.mp hp with hfirst | hrest
    · split at hfirst
      · obtain rfl := List.mem_singleton.mp hfirst
        rfl
      · cases hfirst
    · exact ih hrest

/-- The keys on the way to a table that is not visited are texts. -/
theorem isWritable_of_mem_unvisitedTables (h : (Value.map node).isTreeOf test = true) {p : Pointer}
    (hp : p ∈ node.unvisitedTables) : p.isWritable = true := by
  obtain ⟨keyword, -, hmem⟩ := List.mem_flatMap.mp hp
  unfold tablesUnder at hmem
  split at hmem
  · exact isWritable_of_mem_tablesIn hmem
  · next es hvalue =>
    have hes := Value.isTreeOf_map_iff_isObject.mp
      ((Value.isTreeOf_map_iff_isObject.mp h).of_get? hvalue)
    split at hmem
    · obtain rfl := List.mem_singleton.mp hmem
      rfl
    · obtain ⟨⟨k, sub⟩, he, hsome⟩ := List.mem_filterMap.mp hmem
      split at hsome
      · obtain rfl := Option.some.inj hsome
        obtain ⟨s, rfl⟩ := Scalar.isText_iff.mp (hes.texts _ (mem_mappings_iff.mp he))
        rfl
      · cases hsome
  · cases hmem

end Fields

end NestedTables
