import NestedTables.Proofs.Schema.Region

/-!
# Sites

A *site* is a place where a table gets a relation: a node of the region of the table, and a
property of that node which is a table or an array of tables. A site is told apart from others
by the way to its node and by the name of its property (`Tree.nodup_sites`); two sites of a table
may well have the same name.
-/

namespace NestedTables

/-- A place where a table gets a relation: the way to a node of its region, and a property of
that node which is a table or an array of tables. -/
structure Site where
  way : List Step
  name : String
  child : Tree

namespace Site

/-- The site that a child of the node at the end of a way makes, if it makes one. -/
def of? (way : List Step) : Step × Tree → Option Site
  | (.property (.text name), child) =>
    if child.fields.kind = .table ∨ child.fields.kind = .arrayOfTable then some ⟨way, name, child⟩
    else none
  | _ => none

theorem of?_eq_some {way : List Step} {c : Step × Tree} {s : Site} (h : of? way c = some s) :
    c.1 = .property (.text s.name) ∧ s.way = way ∧ s.child = c.2 := by
  unfold of? at h
  split at h
  · split at h
    · obtain rfl := Option.some.inj h
      exact ⟨rfl, rfl, rfl⟩
    · simp at h
  · simp at h

/-- The table that the relation leads to. -/
def target (s : Site) : Fields :=
  if s.child.fields.isTable then s.child.fields
  else (s.child.fields.mapping? "items").getD []

end Site

namespace Tree

/-- The sites of some nodes, each with the way to it. -/
def sitesOf (nodes : List (List Step × Tree)) : List Site :=
  nodes.flatMap fun n => n.2.children.filterMap (Site.of? n.1)

/-- The sites of a table. -/
def sites (table : Tree) : List Site :=
  sitesOf table.region

/-- The names of the relations of a table, one for each site. -/
def siteNames (table : Tree) : List Scalar :=
  table.sites.map fun s => .text s.name

@[simp] theorem sitesOf_nil : sitesOf [] = [] := rfl

@[simp] theorem sitesOf_append (ns ms : List (List Step × Tree)) :
    sitesOf (ns ++ ms) = sitesOf ns ++ sitesOf ms := by
  simp [sitesOf]

theorem sitesOf_regionFrom (way : List Step) (fields : Fields) (children : List (Step × Tree)) :
    sitesOf (regionFrom way (.node fields children)) =
      children.filterMap (Site.of? way) ++ sitesOf (regionBelow way children) := by
  rw [regionFrom, sitesOf, List.flatMap_cons, sitesOf]
  rfl

/-- The sites that a child of the node at the end of a way adds to those of the region: the one
that it makes, and those of its own region unless it is a table. -/
def sitesAt (way : List Step) (c : Step × Tree) : List Site :=
  (Site.of? way c).toList ++
    sitesOf (if c.2.fields.isTable then [] else regionFrom (way ++ [c.1]) c.2)

theorem append_append_perm {α : Type} (as bs cs ds : List α) :
    ((as ++ bs) ++ (cs ++ ds)).Perm ((as ++ cs) ++ (bs ++ ds)) := by
  rw [List.append_assoc, List.append_assoc]
  refine List.Perm.append_left _ ?_
  rw [← List.append_assoc, ← List.append_assoc]
  exact List.perm_append_comm.append_right _

/-- The sites of a region, child by child. -/
theorem sitesOf_regionFrom_perm (way : List Step) (fields : Fields)
    (children : List (Step × Tree)) :
    (sitesOf (regionFrom way (.node fields children))).Perm
      (children.flatMap (sitesAt way)) := by
  rw [sitesOf_regionFrom]
  induction children with
  | nil => exact List.Perm.refl _
  | cons c rest ih =>
    obtain ⟨step, tree⟩ := c
    have hcons : ((step, tree) :: rest).filterMap (Site.of? way) =
        (Site.of? way (step, tree)).toList ++ rest.filterMap (Site.of? way) := by
      cases h : Site.of? way (step, tree) <;> simp [h]
    rw [hcons, regionBelow, sitesOf_append, List.flatMap_cons]
    exact (append_append_perm _ _ _ _).trans (ih.append_left _)

/-- What a site leads to is visited. -/
theorem walked_of_mem_sites {node : Fields} (hkeyed : node.isKeyed = true) {t : Pointer × Tree}
    (ht : t ∈ (ofFields node).tables) {s : Site} (hs : s ∈ t.2.sites) :
    node.Walked s.child.fields := by
  obtain ⟨htree, hsub⟩ := ofFields_of_mem_tables hkeyed ht
  obtain ⟨n, hn, hsite⟩ := List.mem_flatMap.mp hs
  rw [htree] at hn
  obtain ⟨hnode, -⟩ := ofFields_of_mem_region hsub hn
  obtain ⟨c, hc, hmake⟩ := List.mem_filterMap.mp hsite
  rw [hnode, ofFields_eq] at hc
  obtain ⟨c', hc', rfl⟩ := List.mem_map.mp hc
  rw [(Site.of?_eq_some hmake).2.2]
  exact (walked_of_mem_tables ht).trans ((walked_of_mem_region hn).trans
    ((Fields.Walked.self c'.2).of_child hc'))

/-! ### Sites are told apart by their ways and names -/

/-- **No two sites** of a table have the same way and the same name. -/
theorem nodup_sites {node : Fields} (hkeyed : node.isKeyed = true) :
    ((ofFields node).sites.map fun s => (s.way, s.name)).Nodup := by
  have hway : ∀ n : List Step × Tree, ∀ k ∈ (n.2.children.filterMap (Site.of? n.1)).map
      (fun s => (s.way, s.name)), k.1 = n.1 := by
    intro n k hk
    obtain ⟨s, hs, rfl⟩ := List.mem_map.mp hk
    obtain ⟨c, -, hc⟩ := List.mem_filterMap.mp hs
    exact (Site.of?_eq_some hc).2.1
  rw [sites, sitesOf, List.map_flatMap, List.nodup_flatMap]
  refine ⟨fun n hn => ?_, ?_⟩
  · -- at one node the names differ, since the steps to its children do
    obtain ⟨htree, hsub⟩ := ofFields_of_mem_region hkeyed hn
    have hsteps : n.2.children.Pairwise fun c c' => c.1 ≠ c'.1 := by
      rw [htree, ofFields_eq]
      have hnodup := Fields.nodup_steps hsub
      rw [List.Nodup, List.pairwise_map] at hnodup
      exact List.pairwise_map.mpr hnodup
    rw [List.Nodup, List.pairwise_map, List.pairwise_filterMap]
    refine hsteps.imp fun {c c'} hne s hs s' hs' heq => hne ?_
    rw [(Site.of?_eq_some hs).1, (Site.of?_eq_some hs').1, (Prod.mk.inj heq).2]
  · -- at two nodes the ways differ
    have hways : (ofFields node).region.Pairwise fun n n' => n.1 ≠ n'.1 :=
      List.pairwise_map.mp (nodup_ways hkeyed)
    refine hways.imp fun {n n'} hne k hk hk' => hne ?_
    rw [← hway n k hk, hway n' k hk']

end Tree

end NestedTables
