import NestedTables.Proofs.Schema.Place
import NestedTables.Proofs.Schema.Site

/-!
# Ways to tables

A *way* is the list of the steps from a node down to another one. In a keyed schema every visited
node lies at the end of a way (`Fields.walked_iff_down?`), and a way leads to one node. So a table
of the schema can be named by its way, and the tables around it are those on the way to it.

The table that encloses the end of a way is the last one on the way. The sites of that table lead
to the tables that it encloses and that are reached through a property, directly or as the items of
an array that is no table: `Fields.exists_site_iff`. A site is known by the way on which it leads to
its table (`Site.path_injOn`).
-/

namespace NestedTables

namespace Fields

/-- The node at the end of a way. -/
def down? (node : Fields) : List Step → Option Fields
  | [] => some node
  | step :: way => (Entries.get? step node.children).bind fun sub => sub.down? way

@[simp] theorem down?_nil (node : Fields) : node.down? [] = some node := rfl

theorem down?_cons (node : Fields) (step : Step) (way : List Step) : node.down? (step :: way) =
    (Entries.get? step node.children).bind fun sub => sub.down? way := rfl

theorem down?_append (node : Fields) (way way' : List Step) :
    node.down? (way ++ way') = (node.down? way).bind fun sub => sub.down? way' := by
  induction way generalizing node with
  | nil => rfl
  | cons step way ih =>
    rw [List.cons_append, down?_cons, down?_cons]
    cases Entries.get? step node.children with
    | none => rfl
    | some sub => exact ih sub

theorem down?_append_singleton (node : Fields) (way : List Step) (step : Step) :
    node.down? (way ++ [step]) =
      (node.down? way).bind fun sub => Entries.get? step sub.children := by
  rw [down?_append]
  cases node.down? way with
  | none => rfl
  | some sub =>
    rw [Option.bind_some, Option.bind_some, down?_cons]
    cases Entries.get? step sub.children <;> rfl

variable {root node sub : Fields} {way : List Step} {step : Step}

/-- A child of a keyed node is found by the step to it. -/
theorem get?_children_iff (hkeyed : node.isKeyed = true) :
    Entries.get? step node.children = some sub ↔ (step, sub) ∈ node.children :=
  ⟨Entries.mem_of_get?_eq_some, Entries.get?_eq_some_of_mem (nodup_steps hkeyed)⟩

theorem isKeyed_of_down? (hkeyed : root.isKeyed = true) (h : root.down? way = some node) :
    node.isKeyed = true := by
  induction way generalizing root with
  | nil => exact Option.some.inj h ▸ hkeyed
  | cons step way ih =>
    obtain ⟨sub, hsub, hdown⟩ := Option.bind_eq_some_iff.mp h
    exact ih (isKeyed_of_mem_children hkeyed (Entries.mem_of_get?_eq_some hsub)) hdown

/-- The name of a property on a way of a keyed schema is a text. -/
theorem exists_text_of_down? (hkeyed : root.isKeyed = true) {k : Scalar}
    (h : root.down? (way ++ [.property k]) = some node) : ∃ name, k = .text name := by
  rw [down?_append_singleton, Option.bind_eq_some_iff] at h
  obtain ⟨above, habove, hchild⟩ := h
  obtain ⟨properties, hproperties, hmem⟩ :=
    property_mem_children_iff.mp (Entries.mem_of_get?_eq_some hchild)
  have hkeyed' := isKeyed_of_mapping? (isKeyed_of_down? hkeyed habove) hproperties
  exact Scalar.isText_iff.mp (((isKeyed_iff properties).mp hkeyed').2 _ hmem).1

/-- **The visited nodes of a keyed schema** are those at the ends of ways. -/
theorem walked_iff_down? (hkeyed : root.isKeyed = true) :
    root.Walked node ↔ ∃ way, root.down? way = some node := by
  constructor
  · intro h
    induction root using Fields.walkInduction with
    | h root ih =>
      rcases walked_iff.mp h with rfl | ⟨⟨step, sub⟩, hc, hwalked⟩
      · exact ⟨[], rfl⟩
      · obtain ⟨way, hway⟩ := ih _ hc (isKeyed_of_mem_children hkeyed hc) hwalked
        refine ⟨step :: way, ?_⟩
        rw [down?_cons, (get?_children_iff hkeyed).mpr hc]
        exact hway
  · rintro ⟨way, h⟩
    induction way generalizing root with
    | nil => exact Option.some.inj h ▸ .self root
    | cons step way ih =>
      obtain ⟨sub, hsub, hdown⟩ := Option.bind_eq_some_iff.mp h
      have hc := Entries.mem_of_get?_eq_some hsub
      exact (ih (isKeyed_of_mem_children hkeyed hc) hdown).of_child hc

/-- Whether there is no table on a way, its start apart. -/
def Clear (node : Fields) (way : List Step) : Prop :=
  ∀ mid, mid ≠ [] → mid <+: way → ∀ n, node.down? mid = some n → n.isTable = false

theorem clear_nil (node : Fields) : node.Clear [] :=
  fun _ hne hinit => absurd (List.prefix_nil.mp hinit) hne

theorem Clear.of_prefix {way' : List Step} (h : node.Clear way) (hinit : way' <+: way) :
    node.Clear way' :=
  fun mid hne hmid => h mid hne (hmid.trans hinit)

theorem clear_append_singleton : node.Clear (way ++ [step]) ↔
    node.Clear way ∧ ∀ n, node.down? (way ++ [step]) = some n → n.isTable = false := by
  constructor
  · exact fun h => ⟨h.of_prefix (List.prefix_append _ _), h _ (by simp) List.prefix_rfl⟩
  · rintro ⟨hway, hlast⟩ mid hne hmid
    rcases List.prefix_concat_iff.mp hmid with rfl | hmid
    · exact hlast
    · exact hway mid hne hmid

theorem clear_cons (hsub : Entries.get? step node.children = some sub) :
    node.Clear (step :: way) ↔ sub.isTable = false ∧ sub.Clear way := by
  have hdown : ∀ mid, node.down? (step :: mid) = sub.down? mid := by
    intro mid
    rw [down?_cons, hsub, Option.bind_some]
  constructor
  · intro h
    refine ⟨h [step] (by simp) ⟨way, rfl⟩ sub (hdown []), fun mid hne hmid n hn => ?_⟩
    exact h (step :: mid) (by simp) ((List.prefix_cons_inj step).mpr hmid) n ((hdown mid).trans hn)
  · rintro ⟨hsubTable, hclear⟩ mid hne hmid n hn
    cases mid with
    | nil => exact absurd rfl hne
    | cons step' mid =>
      obtain ⟨rfl, hinit⟩ := List.cons_prefix_cons.mp hmid
      rw [hdown] at hn
      by_cases hnil : mid = []
      · subst hnil
        exact Option.some.inj hn ▸ hsubTable
      · exact hclear mid hnil hinit n hn

end Fields

/-! ### Pointers of ways -/

theorem Pointer.ofWay_cons (step : Step) (way : List Step) :
    Pointer.ofWay (step :: way) = step.path ++ Pointer.ofWay way := by
  simp [Pointer.ofWay]

/-- **A pointer tells the way.** -/
theorem Pointer.ofWay_injective : Function.Injective Pointer.ofWay := by
  have hne : ∀ (step : Step) (p : Pointer), [] ≠ step.path ++ p := by
    rintro (_ | _) p <;> simp [Step.path]
  intro way
  induction way with
  | nil =>
    rintro (_ | ⟨step, way'⟩) h
    · rfl
    · rw [ofWay_cons] at h
      exact absurd h (hne _ _)
  | cons step way ih =>
    rintro (_ | ⟨step', way'⟩) h
    · rw [ofWay_cons] at h
      exact absurd h.symm (hne _ _)
    · rw [ofWay_cons, ofWay_cons] at h
      obtain rfl := Tree.step_eq_of_append_eq h
      rw [ih (List.append_cancel_left h)]

namespace Tree

variable {node : Fields}

/-- **The tables of a keyed schema** are the tables at the ends of ways. -/
theorem mem_tables_iff_down? (hkeyed : node.isKeyed = true) {t : Pointer × Tree} :
    t ∈ (ofFields node).tables ↔ ∃ way c, node.down? way = some c ∧ c.isTable = true ∧
      t = (Pointer.ofWay way, ofFields c) := by
  induction node using Fields.walkInduction generalizing t with
  | h node ih =>
    rw [mem_tables_ofFields_iff]
    constructor
    · rintro (⟨htable, rfl⟩ | ⟨⟨step, sub⟩, hc, u, hu, rfl⟩)
      · exact ⟨[], node, rfl, htable, rfl⟩
      · obtain ⟨way, c, hdown, htable, rfl⟩ :=
          (ih _ hc (Fields.isKeyed_of_mem_children hkeyed hc)).mp hu
        refine ⟨step :: way, c, ?_, htable, by rw [Pointer.ofWay_cons]⟩
        rw [Fields.down?_cons, (Fields.get?_children_iff hkeyed).mpr hc]
        exact hdown
    · rintro ⟨way, c, hdown, htable, rfl⟩
      cases way with
      | nil =>
        obtain rfl := Option.some.inj hdown
        exact Or.inl ⟨htable, rfl⟩
      | cons step way =>
        obtain ⟨sub, hsub, hdown⟩ := Option.bind_eq_some_iff.mp hdown
        have hc := Entries.mem_of_get?_eq_some hsub
        refine Or.inr ⟨(step, sub), hc, (Pointer.ofWay way, ofFields c), ?_, ?_⟩
        · exact (ih _ hc (Fields.isKeyed_of_mem_children hkeyed hc)).mpr ⟨way, c, hdown, htable, rfl⟩
        · rw [Pointer.ofWay_cons]

/-- **The region of a table** is what lies at the ends of clear ways. -/
theorem mem_region_iff_down? (hkeyed : node.isKeyed = true) {n : List Step × Tree} :
    n ∈ (ofFields node).region ↔
      ∃ c, node.down? n.1 = some c ∧ n.2 = ofFields c ∧ node.Clear n.1 := by
  induction node using Fields.walkInduction generalizing n with
  | h node ih =>
    rw [mem_region_ofFields_iff]
    constructor
    · rintro (rfl | ⟨⟨step, sub⟩, hc, htable, m, hm, rfl⟩)
      · exact ⟨node, rfl, rfl, node.clear_nil⟩
      · obtain ⟨c, hdown, htree, hclear⟩ :=
          (ih _ hc (Fields.isKeyed_of_mem_children hkeyed hc)).mp hm
        have hsub := (Fields.get?_children_iff hkeyed).mpr hc
        refine ⟨c, ?_, htree, (Fields.clear_cons hsub).mpr ⟨htable, hclear⟩⟩
        rw [Fields.down?_cons, hsub]
        exact hdown
    · rintro ⟨c, hdown, htree, hclear⟩
      obtain ⟨way, tree⟩ := n
      cases way with
      | nil =>
        obtain rfl := Option.some.inj hdown
        exact Or.inl (congrArg _ htree)
      | cons step way =>
        obtain ⟨sub, hsub, hdown⟩ := Option.bind_eq_some_iff.mp hdown
        have hc := Entries.mem_of_get?_eq_some hsub
        obtain ⟨htable, hclear⟩ := (Fields.clear_cons hsub).mp hclear
        refine Or.inr ⟨(step, sub), hc, htable, (way, tree), ?_, rfl⟩
        exact (ih _ hc (Fields.isKeyed_of_mem_children hkeyed hc)).mpr ⟨c, hdown, htree, hclear⟩

end Tree

/-! ### Sites by their ways -/

/-- A node that is no table but has a table for its items is an array of tables. -/
theorem Fields.kind_eq_arrayOfTable {node items : Fields} (htable : node.isTable = false)
    (hitems : node.mapping? "items" = some items) (hitemsTable : items.isTable = true) :
    node.kind = .arrayOfTable := by
  obtain ⟨v, hv, hfields⟩ := Option.bind_eq_some_iff.mp hitems
  have hmap : node.value "items" = .map items := by
    cases v <;> simp [Value.fields?] at hfields
    rw [Fields.value, hv, hfields]
    rfl
  have harray : node.isArray = true := by simp [isArray, hitems]
  simp [kind, htable, harray, hmap, Value.isTable, hitemsTable]

/-- The way from a table on which a site leads to its own table. -/
def Site.path (s : Site) : List Step :=
  s.way ++ .property (.text s.name) :: if s.child.fields.isTable then [] else [.items]

theorem Site.path_of_isTable {s : Site} (h : s.child.fields.isTable = true) :
    s.path = s.way ++ [.property (.text s.name)] := by
  rw [path, if_pos h]

theorem Site.path_of_not_isTable {s : Site} (h : s.child.fields.isTable = false) :
    s.path = (s.way ++ [.property (.text s.name)]) ++ [.items] := by
  rw [path, if_neg (by simp [h]), List.append_assoc]
  rfl

theorem Site.target_of_isTable {s : Site} (h : s.child.fields.isTable = true) :
    s.target = s.child.fields := by
  rw [target, if_pos h]

theorem Site.target_of_items {s : Site} {items : Fields} (h : s.child.fields.isTable = false)
    (hitems : s.child.fields.mapping? "items" = some items) : s.target = items := by
  rw [target, if_neg (by simp [h]), hitems, Option.getD_some]

variable {table : Fields} {s s' : Site}

/-- The node under the property of a site, and the way to it. -/
theorem Tree.mem_sites_iff (hkeyed : table.isKeyed = true) :
    s ∈ (ofFields table).sites ↔ ∃ sub, table.down? (s.way ++ [.property (.text s.name)]) = some sub ∧
      table.Clear s.way ∧ s.child = ofFields sub ∧ (sub.kind = .table ∨ sub.kind = .arrayOfTable) := by
  rw [sites, sitesOf, List.mem_flatMap]
  constructor
  · rintro ⟨n, hn, hsite⟩
    obtain ⟨c, hdown, htree, hclear⟩ := (mem_region_iff_down? hkeyed).mp hn
    rw [htree] at hsite
    obtain ⟨⟨step, tree⟩, hchild, hmake⟩ := List.mem_filterMap.mp hsite
    obtain ⟨hstep, hway, htree⟩ := Site.of?_eq_some hmake
    rw [ofFields_eq] at hchild
    obtain ⟨⟨step', sub⟩, hc, heq⟩ := List.mem_map.mp hchild
    obtain ⟨rfl, rfl⟩ := Prod.mk.inj heq
    obtain rfl : step' = .property (.text s.name) := hstep
    have hkeyed' := Fields.isKeyed_of_down? hkeyed hdown
    refine ⟨sub, ?_, hway ▸ hclear, htree, ?_⟩
    · rw [Fields.down?_append_singleton, hway, hdown]
      exact (Fields.get?_children_iff hkeyed').mpr hc
    · by_contra hkind
      simp [Site.of?, hkind] at hmake
  · rintro ⟨sub, hdown, hclear, htree, hkind⟩
    rw [Fields.down?_append_singleton, Option.bind_eq_some_iff] at hdown
    obtain ⟨above, habove, hchild⟩ := hdown
    refine ⟨(s.way, ofFields above), (mem_region_iff_down? hkeyed).mpr ⟨above, habove, rfl, hclear⟩,
      List.mem_filterMap.mpr ⟨(.property (.text s.name), ofFields sub), ?_, ?_⟩⟩
    · rw [ofFields_eq]
      exact List.mem_map.mpr ⟨_, Entries.mem_of_get?_eq_some hchild, rfl⟩
    · obtain ⟨way, name, child⟩ := s
      obtain rfl : child = ofFields sub := htree
      simp [Site.of?, hkind]

/-- **A site leads to its table** on its path, on which there is no other one. -/
theorem Site.down?_path (hkeyed : table.isKeyed = true) (hs : s ∈ (Tree.ofFields table).sites) :
    table.down? s.path = some s.target ∧ s.target.isTable = true ∧ table.Clear s.path.dropLast := by
  obtain ⟨sub, hdown, hclear, htree, hkind⟩ := (Tree.mem_sites_iff hkeyed).mp hs
  have hfields : s.child.fields = sub := by rw [htree, Tree.fields_ofFields]
  rcases hkind with hkind | hkind
  · have htable : s.child.fields.isTable = true := hfields ▸ Fields.kind_eq_table_iff.mp hkind
    rw [path_of_isTable htable, target_of_isTable htable, List.dropLast_concat]
    exact ⟨hfields ▸ hdown, htable, hclear⟩
  · obtain ⟨htable, items, hitems, hitemsTable⟩ := Fields.exists_items_of_kind hkind
    have htable' : s.child.fields.isTable = false := hfields ▸ htable
    rw [path_of_not_isTable htable', target_of_items htable' (hfields ▸ hitems),
      List.dropLast_concat]
    refine ⟨?_, hitemsTable, Fields.clear_append_singleton.mpr ⟨hclear, fun n hn => ?_⟩⟩
    · rw [Fields.down?_append_singleton, hdown]
      exact (Fields.get?_children_iff (Fields.isKeyed_of_down? hkeyed hdown)).mpr
        (Fields.items_mem_children_iff.mpr hitems)
    · exact Option.some.inj (hdown.symm.trans hn) ▸ htable

/-- **Two sites of a table lead to their tables on different ways.** -/
theorem Site.path_injOn (hkeyed : table.isKeyed = true) (hs : s ∈ (Tree.ofFields table).sites)
    (hs' : s' ∈ (Tree.ofFields table).sites) (h : s.path = s'.path) : s = s' := by
  obtain ⟨sub, hdown, -, htree, -⟩ := (Tree.mem_sites_iff hkeyed).mp hs
  obtain ⟨sub', hdown', -, htree', -⟩ := (Tree.mem_sites_iff hkeyed).mp hs'
  -- the end of the way tells a table from an array
  have hparts : s.way ++ [.property (.text s.name)] = s'.way ++ [.property (.text s'.name)] := by
    cases htable : s.child.fields.isTable <;> cases htable' : s'.child.fields.isTable
    · rw [path_of_not_isTable htable, path_of_not_isTable htable'] at h
      exact (List.append_inj' h rfl).1
    · rw [path_of_not_isTable htable, path_of_isTable htable'] at h
      simpa using (List.append_inj' h rfl).2
    · rw [path_of_isTable htable, path_of_not_isTable htable'] at h
      simpa using (List.append_inj' h rfl).2
    · rwa [path_of_isTable htable, path_of_isTable htable'] at h
  obtain ⟨hway, hname⟩ := List.append_inj' hparts rfl
  have hsub : sub = sub' := Option.some.inj (hdown.symm.trans (hparts ▸ hdown'))
  obtain ⟨way, name, child⟩ := s
  obtain ⟨way', name', child'⟩ := s'
  simp only [List.cons.injEq, Step.property.injEq, Scalar.text.injEq, and_true] at hway hname
  simp only [Site.mk.injEq]
  exact ⟨hway, hname, htree.trans (hsub ▸ htree'.symm)⟩

/-! ### Tables around a table -/

namespace Fields

/-- Whether the table at the end of the way `u` encloses the end of the way `w`: it is the last
table on that way, its end apart. -/
def Encloses (schema : Fields) (u w : List Step) : Prop :=
  ∃ (table : Fields) (between : List Step) (last : Step), schema.down? u = some table ∧
    table.isTable = true ∧ table.Clear between ∧ w = u ++ between ++ [last]

/-- Whether the end of a way is reached as the value of a property, or as the items of a node that
is no table and is the value of a property itself. -/
def IsReached (schema : Fields) (w : List Step) : Prop :=
  (∃ v k, w = v ++ [.property k]) ∨
    ∃ v k array, w = v ++ [.property k, .items] ∧ schema.down? (v ++ [.property k]) = some array ∧
      array.isTable = false

variable {schema : Fields} {u u' w : List Step}

theorem Encloses.eq_of_length_le (h : schema.Encloses u w) (h' : schema.Encloses u' w)
    (hle : u.length ≤ u'.length) : u = u' := by
  obtain ⟨table, between, last, hdown, -, hclear, rfl⟩ := h
  obtain ⟨table', between', last', hdown', htable', -, heq⟩ := h'
  obtain ⟨rest, rfl⟩ : u <+: u' := by
    refine List.prefix_of_prefix_length_le ⟨between ++ [last], rfl⟩ ⟨between' ++ [last'], ?_⟩ hle
    rw [← List.append_assoc, ← List.append_assoc, heq]
  -- a table further down would stand on a way that is clear
  rw [List.append_assoc, List.append_assoc, List.append_assoc, List.append_cancel_left_eq,
    ← List.append_assoc rest] at heq
  rw [(List.append_inj' heq rfl).1] at hclear
  rw [down?_append, hdown, Option.bind_some] at hdown'
  by_contra hne
  have hrest : rest ≠ [] := by
    rintro rfl
    exact hne (List.append_nil u).symm
  simp [hclear rest hrest (List.prefix_append _ _) table' hdown'] at htable'

/-- **One table encloses the end of a way.** -/
theorem Encloses.unique (h : schema.Encloses u w) (h' : schema.Encloses u' w) : u = u' :=
  (Nat.le_total u.length u'.length).elim (h.eq_of_length_le h') fun hle =>
    (h'.eq_of_length_le h hle).symm

variable {table c : Fields}

/-- A site leads to a table that its own table encloses, and that is reached. -/
theorem encloses_of_site (hkeyed : schema.isKeyed = true) (hdown : schema.down? u = some table)
    (htable : table.isTable = true) {s : Site} (hs : s ∈ (Tree.ofFields table).sites) :
    schema.Encloses u (u ++ s.path) ∧ schema.IsReached (u ++ s.path) := by
  have hkeyed' := isKeyed_of_down? hkeyed hdown
  obtain ⟨-, -, hclear⟩ := Site.down?_path hkeyed' hs
  cases hchild : s.child.fields.isTable with
  | true =>
    rw [Site.path_of_isTable hchild, List.dropLast_concat] at hclear
    rw [Site.path_of_isTable hchild, ← List.append_assoc]
    exact ⟨⟨table, s.way, _, hdown, htable, hclear, rfl⟩, Or.inl ⟨_, _, rfl⟩⟩
  | false =>
    obtain ⟨sub, hsub, -, htree, -⟩ := (Tree.mem_sites_iff hkeyed').mp hs
    rw [Site.path_of_not_isTable hchild, List.dropLast_concat] at hclear
    rw [Site.path_of_not_isTable hchild, ← List.append_assoc]
    refine ⟨⟨table, _, _, hdown, htable, hclear, rfl⟩,
      Or.inr ⟨u ++ s.way, .text s.name, sub, by simp, ?_, ?_⟩⟩
    · rw [List.append_assoc, down?_append, hdown]
      exact hsub
    · rw [← hchild, htree, Tree.fields_ofFields]

/-- **The sites of a table lead to the tables that it encloses and that are reached.** -/
theorem exists_site_iff (hkeyed : schema.isKeyed = true) (hdown : schema.down? u = some table)
    (htable : table.isTable = true) (hc : schema.down? w = some c) (hcTable : c.isTable = true) :
    (∃ s ∈ (Tree.ofFields table).sites, w = u ++ s.path) ↔
      schema.Encloses u w ∧ schema.IsReached w := by
  constructor
  · rintro ⟨s, hs, rfl⟩
    exact encloses_of_site hkeyed hdown htable hs
  rintro ⟨⟨table', between, last, hdown', -, hclear, rfl⟩, hreached⟩
  obtain rfl := Option.some.inj (hdown.symm.trans hdown')
  have hkeyed' := isKeyed_of_down? hkeyed hdown
  rw [List.append_assoc, down?_append, hdown, Option.bind_some] at hc
  rcases hreached with ⟨v, k, heq⟩ | ⟨v, k, array, heq, harray, harrayTable⟩
  · obtain ⟨rfl, hlast⟩ := List.append_inj' heq rfl
    obtain rfl : last = .property k := by simpa using hlast
    obtain ⟨name, rfl⟩ := exists_text_of_down? hkeyed' hc
    refine ⟨⟨between, name, Tree.ofFields c⟩, (Tree.mem_sites_iff hkeyed').mpr
      ⟨c, hc, hclear, rfl, Or.inl (kind_eq_table_iff.mpr hcTable)⟩, ?_⟩
    rw [Site.path_of_isTable (s := ⟨between, name, Tree.ofFields c⟩) hcTable, List.append_assoc]
  · rw [List.append_cons v] at heq
    obtain ⟨hinit, hlast⟩ := List.append_inj' heq rfl
    obtain rfl : last = .items := by simpa using hlast
    rcases between.eq_nil_or_concat with rfl | ⟨between, step, rfl⟩
    · -- the items of the table itself are not reached
      rw [List.append_nil] at hinit
      rw [← hinit, hdown] at harray
      simp [Option.some.inj harray, harrayTable] at htable
    · rw [List.concat_eq_append] at hinit hclear hc ⊢
      rw [← List.append_assoc] at hinit
      obtain ⟨rfl, hstep⟩ := List.append_inj' hinit rfl
      obtain rfl : step = .property k := by simpa using hstep
      rw [List.append_assoc, down?_append, hdown, Option.bind_some] at harray
      obtain ⟨name, rfl⟩ := exists_text_of_down? hkeyed' harray
      rw [down?_append_singleton, harray, Option.bind_some] at hc
      have hitems := items_mem_children_iff.mp (Entries.mem_of_get?_eq_some hc)
      refine ⟨⟨between, name, Tree.ofFields array⟩, (Tree.mem_sites_iff hkeyed').mpr
        ⟨array, harray, (clear_append_singleton.mp hclear).1, rfl,
          Or.inr (kind_eq_arrayOfTable harrayTable hitems hcTable)⟩, ?_⟩
      rw [Site.path_of_not_isTable (s := ⟨between, name, Tree.ofFields array⟩) harrayTable]
      simp

end Fields

end NestedTables
