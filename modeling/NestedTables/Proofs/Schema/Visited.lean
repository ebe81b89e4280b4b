import NestedTables.Proofs.Schema.Unvisited

/-!
# The pointers of visited nodes

A walk from a node visits what lies at the ends of ways (`Fields.mem_nodes_iff`). The pointer of a
way tells it, and one way begins another exactly when their pointers do; so what is said of ways can
be said of pointers. No node comes after one that lies below it (`Fields.pairwise_nodes`), and from
this it follows as well that no node comes twice.

The text of the pointer of a visited node leads to the node (`Fields.atText?_of_mem_nodes`), and no
two nodes have the same text (`Fields.nodup_written_nodes`).
-/

namespace NestedTables

/-! ### The order of a walk -/

namespace Fields

variable {root : Fields} {n : Pointer × Fields}

/-- **A walk visits** what lies at the ends of ways. -/
theorem mem_nodes_iff (hkeyed : root.isKeyed = true) :
    n ∈ root.nodes ↔ ∃ way, root.down? way = some n.2 ∧ n.1 = Pointer.ofWay way := by
  induction root using Fields.walkInduction generalizing n with
  | h root ih =>
    rw [nodes_eq_flatMap, List.mem_cons, List.mem_flatMap]
    constructor
    · rintro (rfl | ⟨⟨step, sub⟩, hc, hn⟩)
      · exact ⟨[], rfl, rfl⟩
      · obtain ⟨m, hm, rfl⟩ := List.mem_map.mp hn
        obtain ⟨way, hdown, hway⟩ := (ih _ hc (isKeyed_of_mem_children hkeyed hc)).mp hm
        refine ⟨step :: way, ?_, by rw [Pointer.ofWay_cons, ← hway]⟩
        rw [down?_cons, (get?_children_iff hkeyed).mpr hc]
        exact hdown
    · rintro ⟨way, hdown, hway⟩
      obtain ⟨p, node⟩ := n
      obtain rfl : p = Pointer.ofWay way := hway
      cases way with
      | nil =>
        obtain rfl := Option.some.inj hdown
        exact Or.inl rfl
      | cons step way =>
        obtain ⟨sub, hsub, hdown⟩ := Option.bind_eq_some_iff.mp hdown
        have hc := Entries.mem_of_get?_eq_some hsub
        refine Or.inr ⟨(step, sub), hc, List.mem_map.mpr ⟨(Pointer.ofWay way, node), ?_, ?_⟩⟩
        · exact (ih _ hc (isKeyed_of_mem_children hkeyed hc)).mpr ⟨way, hdown, rfl⟩
        · rw [Pointer.ofWay_cons]

/-- **No node comes after one below it.** -/
theorem pairwise_nodes (hkeyed : root.isKeyed = true) :
    root.nodes.Pairwise fun m n => ¬ n.1 <+: m.1 := by
  induction root using Fields.walkInduction with
  | h root ih =>
    rw [nodes_eq_flatMap, List.pairwise_cons, List.pairwise_flatMap]
    refine ⟨fun n hn hbegin => ?_, fun c hc => ?_, ?_⟩
    · obtain ⟨⟨step, sub⟩, -, hmem⟩ := List.mem_flatMap.mp hn
      obtain ⟨m, -, rfl⟩ := List.mem_map.mp hmem
      have hnil := List.prefix_nil.mp hbegin
      cases step <;> simp [Step.path] at hnil
    · refine List.pairwise_map.mpr ((ih c hc (isKeyed_of_mem_children hkeyed hc)).imp ?_)
      exact fun hnot hbegin => hnot ((List.prefix_append_right_inj _).mp hbegin)
    · have hsteps : root.children.Pairwise fun c c' => c.1 ≠ c'.1 :=
        List.pairwise_map.mp (nodup_steps hkeyed)
      refine hsteps.imp fun {c c'} hne m hm n hn hbegin => ?_
      obtain ⟨m', -, rfl⟩ := List.mem_map.mp hm
      obtain ⟨n', -, rfl⟩ := List.mem_map.mp hn
      obtain ⟨rest, hrest⟩ := hbegin
      rw [List.append_assoc] at hrest
      exact hne (Tree.step_eq_of_append_eq hrest).symm

/-- **No node comes twice.** -/
theorem nodup_nodes (hkeyed : root.isKeyed = true) : (root.nodes.map (·.1)).Nodup := by
  refine List.pairwise_map.mpr ((pairwise_nodes hkeyed).imp fun {m n} hnot heq => hnot ?_)
  exact heq ▸ List.prefix_rfl

/-- **What lies below a node comes after it.** -/
theorem mem_after_of_down? (hkeyed : root.isKeyed = true) {before after : List (Pointer × Fields)}
    {way more : List Step} {node sub : Fields}
    (hnodes : root.nodes = before ++ (Pointer.ofWay way, node) :: after) (hmore : more ≠ [])
    (hsub : root.down? (way ++ more) = some sub) : (Pointer.ofWay (way ++ more), sub) ∈ after := by
  have hmem : (Pointer.ofWay (way ++ more), sub) ∈ root.nodes :=
    (mem_nodes_iff hkeyed).mpr ⟨way ++ more, hsub, rfl⟩
  have hpair := pairwise_nodes hkeyed
  rw [hnodes] at hmem hpair
  rcases List.mem_append.mp hmem with hbefore | hmem
  · have hnot := (List.pairwise_append.mp hpair).2.2 _ hbefore _ List.mem_cons_self
    refine absurd ?_ hnot
    rw [Pointer.ofWay, Pointer.ofWay, List.flatMap_append]
    exact List.prefix_append _ _
  · rcases List.mem_cons.mp hmem with heq | hafter
    · have hway := Pointer.ofWay_injective (Prod.mk.inj heq).1
      exact absurd (List.append_right_eq_self.mp hway) hmore
    · exact hafter

/-! ### What the pointers lead to -/

/-- A visited node lies where its pointer leads. -/
theorem at?_of_mem_nodes (hkeyed : root.isKeyed = true) (hn : n ∈ root.nodes) :
    (Value.map root).at? n.1 = some (.map n.2) := by
  obtain ⟨way, hdown, hway⟩ := (mem_nodes_iff hkeyed).mp hn
  rw [hway]
  exact at?_ofWay hkeyed hdown

theorem isText_of_mem_nodes (hkeyed : root.isKeyed = true) (hn : n ∈ root.nodes) :
    ∀ k ∈ n.1, k.isText = true :=
  let ⟨_, hdown, hway⟩ := (mem_nodes_iff hkeyed).mp hn
  hway ▸ isText_ofWay hkeyed hdown

/-- **The text of a pointer leads to the node** that it was made for. -/
theorem atText?_of_mem_nodes (hkeyed : root.isKeyed = true) (hn : n ∈ root.nodes) :
    (Value.map root).atText? n.1.written = some (.map n.2) := by
  rw [Value.atText?_written _ (isText_of_mem_nodes hkeyed hn),
    at?_of_mem_nodes hkeyed hn]

/-- **Different nodes have different texts.** -/
theorem nodup_written_nodes (hkeyed : root.isKeyed = true) :
    (root.nodes.map fun n => n.1.written).Nodup := by
  refine List.pairwise_map.mpr (List.Pairwise.imp_of_mem ?_ (pairwise_nodes hkeyed))
  intro m n hm hn hnot heq
  have hpointer := Pointer.eq_of_written_eq (isText_of_mem_nodes hkeyed hm)
    (isText_of_mem_nodes hkeyed hn) heq
  exact hnot (hpointer ▸ List.prefix_rfl)

/-- The text of a pointer from a visited node to a table that is not visited leads to the table. -/
theorem exists_atText?_of_unvisited (hkeyed : root.isKeyed = true) (hn : n ∈ root.nodes)
    {q : Pointer} (hq : q ∈ n.2.unvisitedTables) :
    ∃ sub : Fields, (Value.map root).atText? (n.1 ++ q).written = some (.map sub) ∧
      sub.isTable = true := by
  obtain ⟨way, hdown, -⟩ := (mem_nodes_iff hkeyed).mp hn
  have hnode := isKeyed_of_down? hkeyed hdown
  obtain ⟨⟨sub, hat, htable⟩, htext⟩ :=
    ((mem_unvisitedTables_iff hnode).mp hq).exists_at? hnode
  refine ⟨sub, ?_, htable⟩
  rw [Value.atText?_written _
      (List.forall_mem_append.mpr ⟨isText_of_mem_nodes hkeyed hn, htext⟩),
    Value.at?_append, at?_of_mem_nodes hkeyed hn, Option.bind_some,
    hat]

end Fields

end NestedTables
