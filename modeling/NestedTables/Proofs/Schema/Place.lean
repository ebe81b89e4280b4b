import NestedTables.Proofs.Schema.Region

/-!
# Places of tables

The place of a table is the number of tables that are left before it. The tables inside a table
have the places right before its own (`Tree.zipIdx_tablesBelow_subset`). No two tables have the
same pointer (`Tree.nodup_pointers`), so what is there by place can be looked up by pointer.
-/

namespace NestedTables.Tree

mutual

/-- The tables inside a table, with their places: the number of tables before the first of them
and the number of them add up to the place of the table. -/
theorem zipIdx_tablesBelow_subset (at_ : Pointer) {start start' i : Nat} {t : Pointer × Tree} :
    ∀ tree : Tree, (t, i) ∈ (tablesFrom at_ tree).zipIdx start →
      start' + countBelow t.2.children = i →
        (tablesBelow t.1 t.2.children).zipIdx start' ⊆ (tablesFrom at_ tree).zipIdx start
  | .node fields children, ht, hstart => by
    rw [tablesFrom, List.zipIdx_append, length_tablesBelow] at ht ⊢
    rcases List.mem_append.mp ht with ht | ht
    · exact List.Subset.trans (zipIdx_tablesBelow_subset_below at_ children ht hstart)
        (List.subset_append_left _ _)
    · split at ht
      · obtain ⟨rfl, rfl⟩ := Prod.mk.inj (List.mem_singleton.mp ht)
        obtain rfl : start' = start := Nat.add_right_cancel hstart
        exact List.subset_append_left _ _
      · simp at ht

theorem zipIdx_tablesBelow_subset_below (at_ : Pointer) {start start' i : Nat}
    {t : Pointer × Tree} : ∀ children : List (Step × Tree),
    (t, i) ∈ (tablesBelow at_ children).zipIdx start →
      start' + countBelow t.2.children = i →
        (tablesBelow t.1 t.2.children).zipIdx start' ⊆ (tablesBelow at_ children).zipIdx start
  | [], ht, _ => by simp [tablesBelow] at ht
  | (step, tree) :: rest, ht, hstart => by
    rw [tablesBelow, List.zipIdx_append] at ht ⊢
    rcases List.mem_append.mp ht with ht | ht
    · exact List.Subset.trans (zipIdx_tablesBelow_subset _ tree ht hstart)
        (List.subset_append_left _ _)
    · exact List.Subset.trans (zipIdx_tablesBelow_subset_below at_ rest ht hstart)
        (List.subset_append_right _ _)

end

mutual

/-- **The tables at and below a table** follow one another among those of a node. -/
theorem infix_tablesFrom (at_ : Pointer) {t : Pointer × Tree} :
    ∀ tree : Tree, t ∈ tablesFrom at_ tree → tablesFrom t.1 t.2 <:+: tablesFrom at_ tree
  | .node fields children, ht => by
    rw [tablesFrom] at ht
    rcases List.mem_append.mp ht with ht | ht
    · rw [tablesFrom]
      exact (infix_tablesBelow at_ children ht).trans (List.prefix_append _ _).isInfix
    · split at ht
      · obtain rfl := List.mem_singleton.mp ht
        exact List.infix_refl _
      · simp at ht

theorem infix_tablesBelow (at_ : Pointer) {t : Pointer × Tree} :
    ∀ children : List (Step × Tree), t ∈ tablesBelow at_ children →
      tablesFrom t.1 t.2 <:+: tablesBelow at_ children
  | [], ht => by simp [tablesBelow] at ht
  | (step, tree) :: rest, ht => by
    rw [tablesBelow] at ht ⊢
    rcases List.mem_append.mp ht with ht | ht
    · exact (infix_tablesFrom _ tree ht).trans (List.prefix_append _ _).isInfix
    · exact (infix_tablesBelow at_ rest ht).trans (List.suffix_append _ _).isInfix

end

/-- Pointers that go through different children of a node are different. -/
theorem step_eq_of_append_eq {step step' : Step} {p p' : Pointer}
    (h : step.path ++ p = step'.path ++ p') : step = step' := by
  cases step <;> cases step' <;> simp_all [Step.path]

/-- **No two tables have the same pointer.** -/
theorem nodup_pointers {node : Fields} (hkeyed : node.isKeyed = true) :
    ((ofFields node).tables.map (·.1)).Nodup := by
  induction node using Fields.walkInduction with
  | h node ih =>
    have hbelow : (tablesBelow [] (node.children.map fun c => (c.1, ofFields c.2))).map (·.1) =
        node.children.flatMap fun c => (ofFields c.2).tables.map fun t => c.1.path ++ t.1 := by
      generalize node.children = cs
      induction cs with
      | nil => rfl
      | cons c cs ihcs =>
        rw [List.map_cons, tablesBelow, List.map_append, ihcs, List.flatMap_cons,
          tablesFrom_eq_map, List.map_map]
        rfl
    rw [tables, ofFields_eq, tablesFrom, List.map_append, hbelow, List.nodup_append,
      List.nodup_flatMap]
    refine ⟨⟨fun c hc => ?_, ?_⟩, ?_, ?_⟩
    · have hinj : Function.Injective fun p : Pointer => c.1.path ++ p :=
        List.append_right_injective _
      have hsub := (ih c hc (Fields.isKeyed_of_mem_children hkeyed hc)).map hinj
      rwa [List.map_map] at hsub
    · have hsteps : node.children.Pairwise fun c c' => c.1 ≠ c'.1 :=
        List.pairwise_map.mp (Fields.nodup_steps hkeyed)
      refine hsteps.imp fun {c c'} hne p hp hp' => ?_
      obtain ⟨t, -, rfl⟩ := List.mem_map.mp hp
      obtain ⟨t', -, ht'⟩ := List.mem_map.mp hp'
      exact hne (step_eq_of_append_eq ht').symm
    · split <;> simp
    · rintro p hp p' hp' rfl
      -- the pointer of the node itself goes through no child
      obtain ⟨c, -, hc⟩ := List.mem_flatMap.mp hp
      obtain ⟨t, -, rfl⟩ := List.mem_map.mp hc
      split at hp'
      · obtain ⟨step, sub⟩ := c
        cases step <;> simp [Step.path] at hp'
      · simp at hp'

end NestedTables.Tree
