import Mathlib.Data.List.Nodup
import NestedTables.Proofs.Document.Keyed

/-!
# The nodes that a walk visits

The walk is a recursion over `Tree.ofFields node`, and a statement about it is proved by an
induction over the same tree. `Fields.walkInduction` is that induction, spoken in terms of a
node and its children, so that no proof has to carry the fact that its tree has been unfolded
from a node.

`Fields.Walked` says that a node is visited. What holds of all nodes that are visited from a
node holds of those visited from its children (`Fields.Walked.of_child`), and everything that
is visited from a node with texts for keys has texts for keys (`Fields.Walked.isKeyed`).
-/

namespace NestedTables

/-! ### Children of a node -/

namespace Fields

variable {node : Fields}

theorem mem_mappings_iff {es : Fields} {k : Scalar} {sub : Fields} :
    (k, sub) ∈ es.mappings ↔ (k, Value.map sub) ∈ es := by
  simp only [mappings, List.mem_filterMap, Option.map_eq_some_iff, Prod.mk.injEq]
  constructor
  · rintro ⟨⟨j, v⟩, hmem, fs, hfields, rfl, rfl⟩
    cases v <;> simp [Value.fields?] at hfields
    exact hfields ▸ hmem
  · intro hmem
    exact ⟨(k, .map sub), hmem, sub, rfl, rfl, rfl⟩

theorem keys_mappings_sublist (es : Fields) :
    List.Sublist (Entries.keys es.mappings) (Entries.keys es) := by
  induction es with
  | nil => simp [mappings, Entries.keys]
  | cons e es ih =>
    obtain ⟨k, v⟩ := e
    cases hv : v.fields? with
    | none => simpa [mappings, hv, Entries.keys] using ih.cons k
    | some sub => simpa [mappings, hv, Entries.keys] using ih.cons_cons k

theorem distinct_mappings {es : Fields} (h : Entries.Distinct es) :
    Entries.Distinct es.mappings :=
  h.sublist (keys_mappings_sublist es)

/-- The properties that are nodes, of a node. -/
def subschemas (node : Fields) : Entries Scalar Fields :=
  ((node.mapping? "properties").getD []).mappings

theorem children_eq (node : Fields) :
    node.children = (node.subschemas.map fun e => (.property e.1, e.2)) ++
      (node.mapping? "items").toList.map fun items => (.items, items) :=
  rfl

theorem property_mem_children_iff {k : Scalar} {sub : Fields} :
    (Step.property k, sub) ∈ node.children ↔
      ∃ props, node.mapping? "properties" = some props ∧ (k, Value.map sub) ∈ props := by
  simp only [children_eq, subschemas, List.mem_append, List.mem_map, Prod.mk.injEq,
    Step.property.injEq, reduceCtorEq, false_and, and_false, exists_false, or_false]
  constructor
  · rintro ⟨⟨j, fs⟩, hmem, rfl, rfl⟩
    cases hp : node.mapping? "properties" with
    | none => simp [hp, mappings] at hmem
    | some props => exact ⟨props, rfl, mem_mappings_iff.mp (by simpa [hp] using hmem)⟩
  · rintro ⟨props, hp, hmem⟩
    exact ⟨(k, sub), by simpa [hp] using mem_mappings_iff.mpr hmem, rfl, rfl⟩

theorem items_mem_children_iff {sub : Fields} :
    (Step.items, sub) ∈ node.children ↔ node.mapping? "items" = some sub := by
  simp only [children_eq, List.mem_append, List.mem_map, Prod.mk.injEq, reduceCtorEq, false_and,
    and_false, exists_false, false_or, Option.mem_toList, true_and, exists_eq_right]

theorem isKeyed_of_mem_children (h : node.isKeyed = true) {c : Step × Fields}
    (hc : c ∈ node.children) : c.2.isKeyed = true := by
  obtain ⟨step, sub⟩ := c
  cases step with
  | property k =>
    obtain ⟨props, hprops, hmem⟩ := property_mem_children_iff.mp hc
    exact isKeyed_of_mem (isKeyed_of_mapping? h hprops) hmem
  | items => exact isKeyed_of_mapping? h (items_mem_children_iff.mp hc)

/-- The children of a keyed node are reached by different steps. -/
theorem nodup_steps (h : node.isKeyed = true) : (node.children.map (·.1)).Nodup := by
  have hsub : (Entries.keys node.subschemas).Nodup := by
    cases hp : node.mapping? "properties" with
    | none => simp [subschemas, hp, mappings, Entries.keys]
    | some props =>
      have hprops := ((isKeyed_iff props).mp (isKeyed_of_mapping? h hp)).1
      rw [subschemas, hp]
      exact distinct_mappings hprops
  rw [children_eq, List.map_append, List.map_map, List.map_map, List.nodup_append]
  refine ⟨?_, ?_, ?_⟩
  · have hinj : Function.Injective Step.property := fun a b hab => Step.property.inj hab
    simpa [Entries.keys, Function.comp_def] using hsub.map hinj
  · cases node.mapping? "items" <;> simp
  · intro a ha b hb
    simp only [List.mem_map, Function.comp_apply] at ha hb
    obtain ⟨_, _, rfl⟩ := ha
    obtain ⟨_, _, rfl⟩ := hb
    exact Step.noConfusion

end Fields

/-! ### Induction over the tree of a node -/

namespace Tree

mutual

/-- A property of trees that a node has as soon as the trees below it have it. -/
theorem induction {P : Tree → Prop}
    (h : ∀ fields children, (∀ c ∈ children, P c.2) → P (.node fields children)) :
    ∀ tree, P tree
  | .node fields children => h fields children (inductionBelow h children)

theorem inductionBelow {P : Tree → Prop}
    (h : ∀ fields children, (∀ c ∈ children, P c.2) → P (.node fields children)) :
    ∀ children : List (Step × Tree), ∀ c ∈ children, P c.2
  | [], c, hc => absurd hc (by simp)
  | (step, tree) :: rest, c, hc => by
    rcases List.mem_cons.mp hc with rfl | hc
    · exact induction h tree
    · exact inductionBelow h rest c hc

end

@[simp] theorem fields_ofFields (node : Fields) : (ofFields node).fields = node := rfl

end Tree

/-- **Induction over the nodes below a node**: what a node has as soon as its children have
it, every node has. -/
theorem Fields.walkInduction {P : Fields → Prop}
    (h : ∀ node : Fields, (∀ c ∈ node.children, P c.2) → P node) (node : Fields) : P node := by
  suffices hall : ∀ tree : Tree, ∀ node : Fields, tree = Tree.ofFields node → P node from
    hall _ node rfl
  intro tree
  induction tree using Tree.induction with
  | h fields children ih =>
    rintro node heq
    rw [Tree.ofFields_eq, Tree.node.injEq] at heq
    obtain ⟨rfl, rfl⟩ := heq
    refine h fields fun c hc => ?_
    exact ih (c.1, Tree.ofFields c.2) (List.mem_map.mpr ⟨c, hc, rfl⟩) c.2 rfl

/-- **Induction over nodes and lists of children**: `P` is what every node has, and `Q` is what
the lists of children have that is needed for it. -/
theorem Fields.childInduction {P : Fields → Prop} {Q : List (Step × Fields) → Prop}
    (hnode : ∀ node : Fields, Q node.children → P node) (hnil : Q [])
    (hcons : ∀ step sub cs, P sub → Q cs → Q ((step, sub) :: cs)) (node : Fields) : P node := by
  induction node using Fields.walkInduction with
  | h node ih =>
    have hall : ∀ cs : List (Step × Fields), (∀ c ∈ cs, P c.2) → Q cs := by
      intro cs
      induction cs with
      | nil => exact fun _ => hnil
      | cons c cs ihcs =>
        intro hcs
        rw [List.forall_mem_cons] at hcs
        exact hcons c.1 c.2 cs hcs.1 (ihcs hcs.2)
    exact hnode node (hall node.children ih)

/-! ### Visited nodes -/

namespace Tree

mutual

/-- The pointers of the visited nodes begin with that of the root. -/
theorem nodesFrom_eq_map (at_ : Pointer) :
    ∀ tree : Tree, nodesFrom at_ tree = (nodesFrom [] tree).map fun n => (at_ ++ n.1, n.2)
  | .node fields children => by
    rw [nodesFrom, nodesFrom, List.map_cons, List.append_nil, nodesBelow_eq_map at_ children]

theorem nodesBelow_eq_map (at_ : Pointer) : ∀ children : List (Step × Tree),
    nodesBelow at_ children = (nodesBelow [] children).map fun n => (at_ ++ n.1, n.2)
  | [] => rfl
  | (step, tree) :: rest => by
    rw [nodesBelow, nodesBelow, List.map_append, nodesFrom_eq_map (at_ ++ step.path) tree,
      nodesFrom_eq_map ([] ++ step.path) tree, nodesBelow_eq_map at_ rest]
    simp

end

theorem mem_nodesBelow_iff {at_ : Pointer} {children : List (Step × Tree)}
    {n : Pointer × Fields} :
    n ∈ nodesBelow at_ children ↔ ∃ c ∈ children, n ∈ nodesFrom (at_ ++ c.1.path) c.2 := by
  induction children with
  | nil => simp [nodesBelow]
  | cons c rest ih =>
    obtain ⟨step, tree⟩ := c
    simp [nodesBelow, ih]

end Tree

namespace Fields

/-- Whether a node is among those that a walk from `root` visits. -/
def Walked (root node : Fields) : Prop :=
  ∃ p, (p, node) ∈ root.nodes

variable {root node : Fields}

theorem nodes_eq (root : Fields) :
    root.nodes = ([], root) ::
      Tree.nodesBelow [] (root.children.map fun c => (c.1, Tree.ofFields c.2)) := by
  rw [nodes, Tree.nodes, Tree.ofFields_eq, Tree.nodesFrom]

theorem Walked.self (node : Fields) : node.Walked node :=
  ⟨[], by rw [nodes_eq]; exact List.mem_cons_self⟩

/-- What is visited from a child is visited from its node. -/
theorem Walked.of_child {c : Step × Fields} (hc : c ∈ root.children) (h : c.2.Walked node) :
    root.Walked node := by
  obtain ⟨p, hp⟩ := h
  refine ⟨[] ++ c.1.path ++ p, ?_⟩
  rw [nodes_eq]
  refine List.mem_cons_of_mem _ (Tree.mem_nodesBelow_iff.mpr
    ⟨(c.1, Tree.ofFields c.2), List.mem_map.mpr ⟨c, hc, rfl⟩, ?_⟩)
  rw [Tree.nodesFrom_eq_map]
  exact List.mem_map.mpr ⟨(p, node), hp, rfl⟩

/-- A visited node is the root or is visited from one of its children. -/
theorem walked_iff : root.Walked node ↔ node = root ∨ ∃ c ∈ root.children, c.2.Walked node := by
  constructor
  · rintro ⟨p, hp⟩
    rw [nodes_eq] at hp
    rcases List.mem_cons.mp hp with heq | hmem
    · exact Or.inl (Prod.mk.injEq .. ▸ heq).2
    · obtain ⟨_, hc', hmem⟩ := Tree.mem_nodesBelow_iff.mp hmem
      obtain ⟨c, hc, rfl⟩ := List.mem_map.mp hc'
      rw [Tree.nodesFrom_eq_map] at hmem
      obtain ⟨⟨q, n⟩, hq, heq⟩ := List.mem_map.mp hmem
      obtain ⟨-, rfl⟩ := Prod.mk.injEq .. ▸ heq
      exact Or.inr ⟨c, hc, q, hq⟩
  · rintro (rfl | ⟨c, hc, h⟩)
    · exact Walked.self _
    · exact h.of_child hc

theorem Walked.trans {middle : Fields} (h : root.Walked middle) (h' : middle.Walked node) :
    root.Walked node := by
  induction root using Fields.walkInduction with
  | h root ih =>
    rcases walked_iff.mp h with rfl | ⟨c, hc, hmiddle⟩
    · exact h'
    · exact (ih c hc hmiddle).of_child hc

/-- **Everything that is visited from a keyed node is keyed.** -/
theorem Walked.isKeyed (h : root.Walked node) (hroot : root.isKeyed = true) :
    node.isKeyed = true := by
  induction root using Fields.walkInduction with
  | h root ih =>
    rcases walked_iff.mp h with rfl | ⟨c, hc, hwalked⟩
    · exact hroot
    · exact ih c hc hwalked (isKeyed_of_mem_children hroot hc)

/-- **A walk goes through the nodes in pre-order**: first the node, then what is visited from each
of its children in turn. -/
theorem nodes_eq_flatMap (root : Fields) :
    root.nodes = ([], root) ::
      root.children.flatMap fun c => c.2.nodes.map fun n => (c.1.path ++ n.1, n.2) := by
  have hbelow : ∀ cs : List (Step × Fields),
      Tree.nodesBelow [] (cs.map fun c => (c.1, Tree.ofFields c.2)) =
        cs.flatMap fun c => c.2.nodes.map fun n => (c.1.path ++ n.1, n.2) := by
    intro cs
    induction cs with
    | nil => rfl
    | cons c cs ih =>
      rw [List.map_cons, Tree.nodesBelow, ih, List.flatMap_cons, Tree.nodesFrom_eq_map,
        List.nil_append, nodes, Tree.nodes]
  rw [nodes_eq, hbelow]

/-- The names of the tables of a schema are those of its visited nodes that are tables and have a
text for a name. -/
theorem mem_tableNames_iff {settings : Settings} {name : String} :
    name ∈ root.tableNames settings ↔ ∃ node, root.Walked node ∧ node.isTable = true ∧
      node.tableName? settings = some (.text name) := by
  have htexts : ∀ v : Option Value,
      name ∈ (v.map Value.texts).getD [] ↔ v = some (.text name) := by
    rintro (_ | v)
    · simp
    · simp only [Option.map_some, Option.getD_some, Option.some.injEq]
      unfold Value.texts
      split
      · simp [eq_comm]
      · next h => simpa using fun heq => h name heq
  simp only [tableNames, List.mem_eraseDups, List.mem_flatMap, List.mem_filter, htexts, Walked]
  constructor
  · rintro ⟨n, ⟨hn, htable⟩, hname⟩
    exact ⟨n.2, ⟨n.1, hn⟩, htable, hname⟩
  · rintro ⟨node, ⟨p, hp⟩, htable, hname⟩
    exact ⟨(p, node), ⟨hp, htable⟩, hname⟩

end Fields

end NestedTables
