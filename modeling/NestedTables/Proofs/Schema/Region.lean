import NestedTables.Proofs.Schema.Walked

/-!
# Tables and regions

The relations of a table are decided by the part of the schema that belongs to it. Two lists over
the tree of a schema say which part this is.

* `Tree.tables` are the visited tables, each after those below it; this is the order in which
  they are registered. They are the visited nodes that are tables (`Tree.map_tablesFrom_perm`).
* `Tree.region` is what belongs to a table: the table and every node below it that is reached
  without going through another table, each with the way to it. No two nodes have the same way
  (`Tree.nodup_ways`).

Nothing here speaks of contexts, of relations or of the order in which a walk finds them.
-/

namespace NestedTables

/-! ### Kinds of nodes -/

namespace Fields

variable {node : Fields}

theorem kind_eq_table_iff : node.kind = .table ↔ node.isTable = true := by
  unfold kind
  split
  · next h => simp [h]
  · next h =>
    simp only [h]
    split
    · split <;> simp
    · split
      · simp
      · simp
      · split <;> simp

/-- The items of an array of tables are a table. -/
theorem exists_items_of_kind (h : node.kind = .arrayOfTable) :
    node.isTable = false ∧ ∃ items, node.mapping? "items" = some items ∧ items.isTable = true := by
  unfold kind at h
  split at h
  · simp at h
  · next htable =>
    refine ⟨by simpa using htable, ?_⟩
    split at h
    · split at h
      · next hitems =>
        unfold Value.isTable at hitems
        split at hitems
        · next items heq =>
          refine ⟨items, ?_, hitems⟩
          cases hv : node.value? "items" with
          | none => simp [value, hv] at heq
          | some v =>
            obtain rfl : v = .map items := by simpa [value, hv] using heq
            simp [mapping?, hv, Value.fields?]
        · simp at hitems
      · simp at h
    · split at h
      · simp at h
      · simp at h
      · split at h <;> simp at h

end Fields

namespace Tree

/-! ### Tables -/

mutual

/-- The tables at a node and below it with their pointers, each after those below it. -/
def tablesFrom (at_ : Pointer) : Tree → List (Pointer × Tree)
  | .node fields children =>
    tablesBelow at_ children ++ if fields.isTable then [(at_, .node fields children)] else []

def tablesBelow (at_ : Pointer) : List (Step × Tree) → List (Pointer × Tree)
  | [] => []
  | (step, tree) :: rest => tablesFrom (at_ ++ step.path) tree ++ tablesBelow at_ rest

end

/-- The visited tables with their pointers, each after those below it. -/
def tables (tree : Tree) : List (Pointer × Tree) :=
  tablesFrom [] tree

/-- The number of tables at a node and below it. -/
def tableCount (tree : Tree) : Nat :=
  tree.tables.length

/-- The number of tables at and below some nodes. -/
def countBelow (children : List (Step × Tree)) : Nat :=
  (tablesBelow [] children).length

mutual

theorem length_tablesFrom (at_ : Pointer) :
    ∀ tree : Tree, (tablesFrom at_ tree).length = tree.tableCount
  | .node fields children => by
    rw [tableCount, tables, tablesFrom, tablesFrom, List.length_append, List.length_append,
      length_tablesBelow at_ children, countBelow]
    split <;> rfl

theorem length_tablesBelow (at_ : Pointer) :
    ∀ children : List (Step × Tree), (tablesBelow at_ children).length = countBelow children
  | [] => rfl
  | (step, tree) :: rest => by
    rw [countBelow, tablesBelow, tablesBelow, List.length_append, List.length_append,
      length_tablesFrom _ tree, length_tablesFrom _ tree, length_tablesBelow at_ rest, countBelow]

end

@[simp] theorem countBelow_nil : countBelow [] = 0 := rfl

theorem countBelow_cons (step : Step) (tree : Tree) (rest : List (Step × Tree)) :
    countBelow ((step, tree) :: rest) = tree.tableCount + countBelow rest := by
  rw [countBelow, tablesBelow, List.length_append, length_tablesFrom, countBelow]

theorem tableCount_node (fields : Fields) (children : List (Step × Tree)) :
    (Tree.node fields children).tableCount =
      countBelow children + if fields.isTable then 1 else 0 := by
  rw [tableCount, tables, tablesFrom, List.length_append, countBelow]
  split <;> rfl

theorem mem_tablesBelow_iff {at_ : Pointer} {children : List (Step × Tree)}
    {t : Pointer × Tree} :
    t ∈ tablesBelow at_ children ↔ ∃ c ∈ children, t ∈ tablesFrom (at_ ++ c.1.path) c.2 := by
  induction children with
  | nil => simp [tablesBelow]
  | cons c rest ih =>
    obtain ⟨step, tree⟩ := c
    simp [tablesBelow, ih]

mutual

/-- The pointers of the tables begin with that of the root. -/
theorem tablesFrom_eq_map (at_ : Pointer) : ∀ tree : Tree,
    tablesFrom at_ tree = (tablesFrom [] tree).map fun t => (at_ ++ t.1, t.2)
  | .node fields children => by
    rw [tablesFrom, tablesFrom, List.map_append, tablesBelow_eq_map at_ children]
    split <;> simp

theorem tablesBelow_eq_map (at_ : Pointer) : ∀ children : List (Step × Tree),
    tablesBelow at_ children = (tablesBelow [] children).map fun t => (at_ ++ t.1, t.2)
  | [] => rfl
  | (step, tree) :: rest => by
    rw [tablesBelow, tablesBelow, List.map_append, tablesFrom_eq_map (at_ ++ step.path) tree,
      tablesFrom_eq_map ([] ++ step.path) tree, tablesBelow_eq_map at_ rest]
    simp

end

/-- A table at or below a node is the node, or is at or below one of its children. -/
theorem mem_tables_ofFields_iff {node : Fields} {t : Pointer × Tree} :
    t ∈ (ofFields node).tables ↔
      (node.isTable = true ∧ t = ([], ofFields node)) ∨
        ∃ c ∈ node.children, ∃ u ∈ (ofFields c.2).tables, t = (c.1.path ++ u.1, u.2) := by
  rw [tables, ofFields_eq, tablesFrom, List.mem_append, mem_tablesBelow_iff, or_comm]
  refine or_congr ?_ ?_
  · cases h : node.isTable <;> simp
  · constructor
    · rintro ⟨c', hc', ht⟩
      obtain ⟨c, hc, rfl⟩ := List.mem_map.mp hc'
      rw [tablesFrom_eq_map] at ht
      obtain ⟨u, hu, rfl⟩ := List.mem_map.mp ht
      exact ⟨c, hc, u, hu, by simp⟩
    · rintro ⟨c, hc, u, hu, rfl⟩
      refine ⟨(c.1, ofFields c.2), List.mem_map.mpr ⟨c, hc, rfl⟩, ?_⟩
      rw [tablesFrom_eq_map]
      exact List.mem_map.mpr ⟨u, hu, by simp⟩

mutual

/-- The tables are the visited nodes that are tables. -/
theorem map_tablesFrom_perm (at_ : Pointer) : ∀ tree : Tree,
    ((tablesFrom at_ tree).map fun t => (t.1, t.2.fields)).Perm
      ((nodesFrom at_ tree).filter fun n => n.2.isTable)
  | .node fields children => by
    rw [tablesFrom, nodesFrom, List.map_append]
    refine ((map_tablesBelow_perm at_ children).append_right _).trans ?_
    cases h : fields.isTable with
    | true =>
      simp only [List.filter_cons, h, if_true]
      exact List.perm_append_singleton _ _
    | false => simp [h]

theorem map_tablesBelow_perm (at_ : Pointer) : ∀ children : List (Step × Tree),
    ((tablesBelow at_ children).map fun t => (t.1, t.2.fields)).Perm
      ((nodesBelow at_ children).filter fun n => n.2.isTable)
  | [] => List.Perm.refl _
  | (step, tree) :: rest => by
    rw [tablesBelow, nodesBelow, List.map_append, List.filter_append]
    exact (map_tablesFrom_perm _ tree).append (map_tablesBelow_perm at_ rest)

end

/-! ### Regions -/

mutual

/-- The nodes at and below a node that are reached without going through a table below it, with
the ways to them; `way` is the way to the node. -/
def regionFrom (way : List Step) : Tree → List (List Step × Tree)
  | .node fields children => (way, .node fields children) :: regionBelow way children

def regionBelow (way : List Step) : List (Step × Tree) → List (List Step × Tree)
  | [] => []
  | (step, tree) :: rest =>
    (if tree.fields.isTable then [] else regionFrom (way ++ [step]) tree) ++ regionBelow way rest

end

mutual

/-- The ways to the nodes of a region begin with that to its root. -/
theorem regionFrom_eq_map (way : List Step) : ∀ tree : Tree,
    regionFrom way tree = (regionFrom [] tree).map fun n => (way ++ n.1, n.2)
  | .node fields children => by
    rw [regionFrom, regionFrom, List.map_cons, List.append_nil, regionBelow_eq_map way children]

theorem regionBelow_eq_map (way : List Step) : ∀ children : List (Step × Tree),
    regionBelow way children = (regionBelow [] children).map fun n => (way ++ n.1, n.2)
  | [] => rfl
  | (step, tree) :: rest => by
    rw [regionBelow, regionBelow, List.map_append, ← regionBelow_eq_map way rest,
      List.nil_append]
    split
    · rfl
    · rw [regionFrom_eq_map (way ++ [step]) tree, regionFrom_eq_map [step] tree, List.map_map]
      simp

end

theorem mem_regionFrom_self (way : List Step) (tree : Tree) :
    (way, tree) ∈ regionFrom way tree := by
  cases tree
  rw [regionFrom]
  exact List.mem_cons_self

/-- What belongs to a table, with the ways from it. -/
def region (table : Tree) : List (List Step × Tree) :=
  regionFrom [] table

theorem mem_regionBelow_iff {way : List Step} {children : List (Step × Tree)}
    {n : List Step × Tree} :
    n ∈ regionBelow way children ↔
      ∃ c ∈ children, c.2.fields.isTable = false ∧ n ∈ regionFrom (way ++ [c.1]) c.2 := by
  induction children with
  | nil => simp [regionBelow]
  | cons c rest ih =>
    obtain ⟨step, tree⟩ := c
    cases h : tree.fields.isTable <;> simp [regionBelow, ih, h]

/-- A node of the region of a node is the node, or belongs to the region of one of its children
that are no tables. -/
theorem mem_region_ofFields_iff {node : Fields} {n : List Step × Tree} :
    n ∈ (ofFields node).region ↔
      n = ([], ofFields node) ∨
        ∃ c ∈ node.children, c.2.isTable = false ∧
          ∃ m ∈ (ofFields c.2).region, n = (c.1 :: m.1, m.2) := by
  rw [region, ofFields_eq, regionFrom, List.mem_cons, mem_regionBelow_iff]
  refine or_congr Iff.rfl ?_
  constructor
  · rintro ⟨c', hc', htable, hn⟩
    obtain ⟨c, hc, rfl⟩ := List.mem_map.mp hc'
    rw [regionFrom_eq_map] at hn
    obtain ⟨m, hm, rfl⟩ := List.mem_map.mp hn
    exact ⟨c, hc, htable, m, hm, rfl⟩
  · rintro ⟨c, hc, htable, m, hm, rfl⟩
    refine ⟨(c.1, ofFields c.2), List.mem_map.mpr ⟨c, hc, rfl⟩, htable, ?_⟩
    rw [regionFrom_eq_map]
    exact List.mem_map.mpr ⟨m, hm, rfl⟩

theorem regionBelow_eq_flatMap (way : List Step) (children : List (Step × Tree)) :
    regionBelow way children = children.flatMap fun c =>
      if c.2.fields.isTable then [] else regionFrom (way ++ [c.1]) c.2 := by
  induction children with
  | nil => rfl
  | cons c rest ih =>
    obtain ⟨step, tree⟩ := c
    rw [regionBelow, List.flatMap_cons, ih]

/-- No two nodes of a region lie at the end of the same way. -/
theorem nodup_ways {node : Fields} (hkeyed : node.isKeyed = true) :
    ((ofFields node).region.map (·.1)).Nodup := by
  induction node using Fields.walkInduction with
  | h node ih =>
    -- the ways through a child begin with the step to it, and the steps differ
    have hstep : ∀ c : Step × Fields, ∀ w ∈ (if c.2.isTable then []
        else regionFrom ([] ++ [c.1]) (ofFields c.2)).map (·.1), ∃ v, w = c.1 :: v := by
      intro c w hw
      obtain ⟨n, hn, rfl⟩ := List.mem_map.mp hw
      split at hn
      · simp at hn
      · rw [regionFrom_eq_map] at hn
        obtain ⟨m, -, rfl⟩ := List.mem_map.mp hn
        exact ⟨m.1, rfl⟩
    rw [region, ofFields_eq, regionFrom, List.map_cons, regionBelow_eq_flatMap, List.flatMap_map,
      List.map_flatMap, List.nodup_cons, List.nodup_flatMap]
    refine ⟨?_, ?_, ?_⟩
    · intro hmem
      obtain ⟨c, -, hc⟩ := List.mem_flatMap.mp hmem
      obtain ⟨v, hv⟩ := hstep c [] hc
      exact absurd hv (by simp)
    · intro c hc
      by_cases htable : c.2.isTable = true
      · rw [fields_ofFields, if_pos htable]
        exact List.nodup_nil
      · rw [fields_ofFields, if_neg htable, regionFrom_eq_map, List.map_map]
        have hcons : Function.Injective fun w : List Step => ([] ++ [c.1]) ++ w :=
          List.append_right_injective _
        have hsub := (ih c hc (Fields.isKeyed_of_mem_children hkeyed hc)).map hcons
        rw [List.map_map] at hsub
        exact hsub
    · have hsteps : node.children.Pairwise fun c c' => c.1 ≠ c'.1 :=
        List.pairwise_map.mp (Fields.nodup_steps hkeyed)
      refine hsteps.imp fun {c c'} hne w hw hw' => ?_
      obtain ⟨v, rfl⟩ := hstep c w hw
      obtain ⟨v', hv'⟩ := hstep c' _ hw'
      exact hne (List.cons.inj hv').1

/-- What lies in the region of a keyed node is the tree of one. -/
theorem ofFields_of_mem_region {node : Fields} (hkeyed : node.isKeyed = true)
    {n : List Step × Tree} (hn : n ∈ (ofFields node).region) :
    n.2 = ofFields n.2.fields ∧ n.2.fields.isKeyed = true := by
  induction node using Fields.walkInduction generalizing n with
  | h node ih =>
    rcases mem_region_ofFields_iff.mp hn with rfl | ⟨c, hc, -, m, hm, rfl⟩
    · exact ⟨rfl, hkeyed⟩
    · have hsub := ih c hc (Fields.isKeyed_of_mem_children hkeyed hc) hm
      exact hsub

/-- The tables of a keyed node are trees of keyed nodes. -/
theorem ofFields_of_mem_tables {node : Fields} (hkeyed : node.isKeyed = true)
    {t : Pointer × Tree} (ht : t ∈ (ofFields node).tables) :
    t.2 = ofFields t.2.fields ∧ t.2.fields.isKeyed = true := by
  induction node using Fields.walkInduction generalizing t with
  | h node ih =>
    rcases mem_tables_ofFields_iff.mp ht with ⟨-, rfl⟩ | ⟨c, hc, u, hu, rfl⟩
    · exact ⟨rfl, hkeyed⟩
    · have hsub := ih c hc (Fields.isKeyed_of_mem_children hkeyed hc) hu
      exact hsub

/-- The tables of a node are visited from it. -/
theorem walked_of_mem_tables {node : Fields} {t : Pointer × Tree}
    (ht : t ∈ (ofFields node).tables) : node.Walked t.2.fields := by
  induction node using Fields.walkInduction generalizing t with
  | h node ih =>
    rcases mem_tables_ofFields_iff.mp ht with ⟨-, rfl⟩ | ⟨c, hc, u, hu, rfl⟩
    · exact .self _
    · exact (ih c hc hu).of_child hc

/-- The nodes of a region are visited from it. -/
theorem walked_of_mem_region {node : Fields} {n : List Step × Tree}
    (hn : n ∈ (ofFields node).region) : node.Walked n.2.fields := by
  induction node using Fields.walkInduction generalizing n with
  | h node ih =>
    rcases mem_region_ofFields_iff.mp hn with rfl | ⟨c, hc, -, m, hm, rfl⟩
    · exact .self _
    · exact (ih c hc hm).of_child hc

end Tree

/-- The pointer at the end of a way from the root. -/
def Pointer.ofWay (way : List Step) : Pointer :=
  way.flatMap Step.path

@[simp] theorem Pointer.ofWay_append (way way' : List Step) :
    Pointer.ofWay (way ++ way') = Pointer.ofWay way ++ Pointer.ofWay way' := by
  simp [Pointer.ofWay]

@[simp] theorem Pointer.ofWay_singleton (step : Step) : Pointer.ofWay [step] = step.path := by
  simp [Pointer.ofWay]

end NestedTables
