import NestedTables.Proofs.Compile.Conclusion

/-!
# The walk follows its outline

`Walk.visit` reads records, merges lists that may clash and asks a binder; `Walk.outline` and
`Walk.acts` do nothing of the kind. Here they are brought together: wherever the names below a
node can be read, a visit sets out to perform the acts of the node (`Walk.walks_visit`), and if
it finishes, it has handed up the outline with handles for the places, and no name has been
taken twice.

A visit can stop in one way that the outline does not foresee. Two relations of one table have
the same name, in a table at or below the node, or in the part of a table that has been handed
up to the node. `Walk.Clashes` is this condition, in terms of the sites of a table.

The proof is by induction over the tree. The children are gone through with the relations
collected so far, and the end of the visit, which does not look at the tree any more, has been
treated before.
-/

namespace NestedTables.Walk

variable {η ε : Type} {setting : Setting η ε} {s s' : Stage η} {v : Visit η} {o : Visit Nat}
  {vs : Entries Step (Visit η)} {os : Entries Step (Visit Nat)} {node : Fields}
  {ctx : Option Context} {step : Option Step} {at_ : Pointer}

/-! ### Clashes -/

/-- A name that two sites of a table have, and the pointer of a node of its region. -/
def Clash (table : Pointer × Tree) (name : Scalar) (p : Pointer) : Prop :=
  List.Duplicate name table.2.siteNames ∧ ∃ n ∈ table.2.region, p = table.1 ++ Pointer.ofWay n.1

/-- The collisions that are possible in the visit of a node: in a table at or below it, or in what
the node hands up. -/
def Clashes (tables : List (Pointer × Tree)) (handed : List Scalar)
    (region : List (List Step × Tree)) (at_ : Pointer) (name : Scalar) (p : Pointer) : Prop :=
  (∃ t ∈ tables, Clash t name p) ∨
    (List.Duplicate name handed ∧ ∃ n ∈ region, p = at_ ++ Pointer.ofWay n.1)

/-- Whether visits of a node follow the outline, from every stage and in every context. -/
def Visits (setting : Setting η ε) (node : Fields) : Prop :=
  ∀ (s : Stage η) (above : Option Context) (step : Option Step) (at_ : Pointer),
    (∀ name, step = some (.property name) → name.isText = true) →
    let o := outline setting above step s.handles.length (Tree.ofFields node)
    Walks setting (acts setting above step at_ s.handles.length (Tree.ofFields node))
      (Clashes (Tree.tablesFrom at_ (Tree.ofFields node)) (Entries.keys o.relations)
        (Tree.regionFrom [] (Tree.ofFields node)) at_) s
      (visit setting above step at_ (Tree.ofFields node))
      fun s' v => Handed s' v o ∧ (Entries.keys o.relations).Nodup ∧
        ∀ t ∈ Tree.tablesFrom at_ (Tree.ofFields node), t.2.siteNames.Nodup

/-! ### What is handed up -/

/-- What a child hands up. -/
def upOf (v : Visit η) : Entries Scalar (Relation η) :=
  if v.table.isSome then [] else v.relations

theorem handedUp_cons (step : Step) (v : Visit η) (vs : Entries Step (Visit η)) :
    handedUp ((step, v) :: vs) = upOf v ++ handedUp vs := rfl

/-! ### Children -/

/-- Visiting children: the first one is visited, what it hands up is merged, and the others
follow. -/
theorem visitAll_cons (setting : Setting η ε) (ctx : Option Context) (at_ : Pointer) (step : Step)
    (tree : Tree) (rest : List (Step × Tree)) (acc : Entries Scalar (Relation η)) :
    visitAll setting ctx at_ ((step, tree) :: rest) acc =
      visit setting ctx (some step) (at_ ++ step.path) tree >>= fun v =>
        accepted (merge acc (upOf v) (at_ ++ step.path)) >>= fun acc' =>
          visitAll setting ctx at_ rest acc' >>= fun r => pure ((step, v) :: r.1, r.2) := by
  rw [visitAll]
  refine bind_congr fun v => ?_
  unfold upOf
  split <;> rfl

theorem Handed.keys_upOf (h : Handed s v o) : Entries.keys (upOf v) = Entries.keys (upOf o) := by
  unfold upOf
  rw [h.table_isSome]
  split
  · rfl
  · exact h.keys_relations

theorem Handed.textual_upOf (h : Handed s v o) (htext : Textual (upOf o)) : Textual (upOf v) :=
  (textual_congr h.keys_upOf).mpr htext

theorem outline_relations_of_isTable (h : node.isTable = true) (above : Option Context)
    (step : Option Step) (start : Nat) :
    (outline setting above step start (Tree.ofFields node)).relations = [] := by
  rw [outline_of_isTable setting h]

theorem outline_relations_of_not_table (h : node.isTable = false) (above : Option Context)
    (step : Option Step) (start : Nat) :
    let ctx := contextIn setting.settings above step node
    let os := outlineAll setting ctx start node.subtrees
    (outline setting above step start (Tree.ofFields node)).relations =
      gathered setting.words ctx os ++ manyOf setting.words ctx step node os := by
  rw [outline_ofFields, handUp, if_neg (by simp [h])]

theorem textual_outline (hkeyed : node.isKeyed = true) (above : Option Context)
    (hstep : ∀ name, step = some (.property name) → name.isText = true) (start : Nat) :
    Textual (outline setting above step start (Tree.ofFields node)).relations := by
  cases h : node.isTable with
  | true =>
    rw [outline_relations_of_isTable h]
    exact textual_nil
  | false =>
    rw [outline_relations_of_not_table h]
    refine textual_append.mpr ⟨textual_gathered setting hkeyed _ start, ?_⟩
    intro k hk
    obtain ⟨e, he, rfl⟩ := List.mem_map.mp hk
    obtain ⟨⟨name, owner, target⟩, hm, rfl⟩ := List.mem_map.mp he
    exact hstep name (many?_eq_some_iff.mp (Option.mem_toList.mp hm)).2.2.1

theorem textual_upOf_outline (hkeyed : node.isKeyed = true) (above : Option Context)
    (hstep : ∀ name, step = some (.property name) → name.isText = true) (start : Nat) :
    Textual (upOf (outline setting above step start (Tree.ofFields node))) := by
  unfold upOf
  split
  · exact textual_nil
  · exact textual_outline hkeyed above hstep start

theorem keys_upOf_outline_of_isTable (h : node.isTable = true) (above : Option Context)
    (step : Option Step) (start : Nat) :
    Entries.keys (upOf (outline setting above step start (Tree.ofFields node))) = [] := by
  rw [upOf, if_pos (by rw [outline_table_isSome, h])]
  rfl

theorem keys_upOf_outline_of_not_table (h : node.isTable = false) (above : Option Context)
    (step : Option Step) (start : Nat) :
    Entries.keys (upOf (outline setting above step start (Tree.ofFields node))) =
      Entries.keys (outline setting above step start (Tree.ofFields node)).relations := by
  rw [upOf, if_neg (by rw [outline_table_isSome, h]; simp)]

/-- What a child, reached by a step, adds to a region. -/
theorem exists_mem_regionBelow {step : Step} {sub : Fields} (htable : sub.isTable = false)
    (rest : List (Step × Tree)) {p : Pointer}
    (h : ∃ n ∈ Tree.regionFrom [] (Tree.ofFields sub),
      p = (at_ ++ step.path) ++ Pointer.ofWay n.1) :
    ∃ n ∈ Tree.regionBelow [] ((step, Tree.ofFields sub) :: rest),
      p = at_ ++ Pointer.ofWay n.1 := by
  obtain ⟨n, hn, rfl⟩ := h
  refine ⟨([step] ++ n.1, n.2), ?_, ?_⟩
  swap
  · rw [Pointer.ofWay_append, Pointer.ofWay_singleton, List.append_assoc]
  rw [Tree.regionBelow, if_neg (by simp [htable]), List.nil_append, Tree.regionFrom_eq_map]
  exact List.mem_append_left _ (List.mem_map.mpr ⟨n, hn, rfl⟩)

section FirstChild

variable (setting : Setting η ε) {step : Step} {sub : Fields} {start : Nat}
  (rest : List (Step × Tree)) {name : Scalar} {names : List Scalar} {p : Pointer}

/-- A collision in the first child is one in the children. -/
theorem clashes_first
    (hnames : List.Sublist (Entries.keys (upOf
      (outline setting ctx (some step) start (Tree.ofFields sub)))) names)
    (h : Clashes (Tree.tablesFrom (at_ ++ step.path) (Tree.ofFields sub))
      (Entries.keys (outline setting ctx (some step) start (Tree.ofFields sub)).relations)
      (Tree.regionFrom [] (Tree.ofFields sub)) (at_ ++ step.path) name p) :
    Clashes (Tree.tablesBelow at_ ((step, Tree.ofFields sub) :: rest)) names
      (Tree.regionBelow [] ((step, Tree.ofFields sub) :: rest)) at_ name p := by
  rcases h with ⟨t, ht, hclash⟩ | ⟨hdup, hregion⟩
  · exact Or.inl ⟨t, List.mem_append_left _ ht, hclash⟩
  cases htable : sub.isTable with
  | true =>
    rw [outline_relations_of_isTable htable] at hdup
    exact absurd hdup (by simp [Entries.keys])
  | false =>
    rw [keys_upOf_outline_of_not_table htable] at hnames
    exact Or.inr ⟨hdup.mono_sublist hnames, exists_mem_regionBelow htable rest hregion⟩

/-- So is a collision of what the first child hands up with what is there already. -/
theorem clashes_merge {acc : Entries Scalar (Relation η)} (hnodup : (Entries.keys acc).Nodup)
    (hdup : List.Duplicate name (Entries.keys acc ++ Entries.keys (upOf
      (outline setting ctx (some step) start (Tree.ofFields sub)))))
    (hnames : List.Sublist (Entries.keys acc ++ Entries.keys (upOf
      (outline setting ctx (some step) start (Tree.ofFields sub)))) names) :
    Clashes (Tree.tablesBelow at_ ((step, Tree.ofFields sub) :: rest)) names
      (Tree.regionBelow [] ((step, Tree.ofFields sub) :: rest)) at_ name (at_ ++ step.path) := by
  have htable : sub.isTable = false := by
    by_contra h
    rw [keys_upOf_outline_of_isTable (by simpa using h), List.append_nil] at hdup
    exact List.nodup_iff_forall_not_duplicate.mp hnodup name hdup
  have hself : ∃ n ∈ Tree.regionFrom [] (Tree.ofFields sub),
      at_ ++ step.path = (at_ ++ step.path) ++ Pointer.ofWay n.1 :=
    ⟨_, Tree.mem_regionFrom_self _ _, by simp [Pointer.ofWay]⟩
  exact Or.inr ⟨hdup.mono_sublist hnames, exists_mem_regionBelow htable rest hself⟩

/-- A collision in the other children is one in the children. -/
theorem clashes_rest (h : Clashes (Tree.tablesBelow at_ rest) names (Tree.regionBelow [] rest) at_
      name p) :
    Clashes (Tree.tablesBelow at_ ((step, Tree.ofFields sub) :: rest)) names
      (Tree.regionBelow [] ((step, Tree.ofFields sub) :: rest)) at_ name p := by
  rcases h with ⟨t, ht, hclash⟩ | ⟨hdup, m, hm, hp⟩
  · exact Or.inl ⟨t, List.mem_append_right _ ht, hclash⟩
  · exact Or.inr ⟨hdup, m, List.mem_append_right _ hm, hp⟩

/-- Merging what the first child hands up into what is there already. -/
theorem walks_mergeFirst {acc : Entries Scalar (Relation η)} (hacc : Textual acc)
    (hnodup : (Entries.keys acc).Nodup)
    (hup : Textual (upOf (outline setting ctx (some step) start (Tree.ofFields sub))))
    (hv : Handed s v (outline setting ctx (some step) start (Tree.ofFields sub)))
    (hnames : List.Sublist (Entries.keys acc ++ Entries.keys (upOf
      (outline setting ctx (some step) start (Tree.ofFields sub)))) names) :
    Walks setting [] (Clashes (Tree.tablesBelow at_ ((step, Tree.ofFields sub) :: rest)) names
        (Tree.regionBelow [] ((step, Tree.ofFields sub) :: rest)) at_) s
      (accepted (merge acc (upOf v) (at_ ++ step.path)))
      fun s₂ acc' => s₂ = s ∧ acc' = acc ++ upOf v ∧ (Entries.keys (acc ++ upOf v)).Nodup := by
  refine walks_merge hacc (hv.textual_upOf hup) hnodup fun name hdup => ?_
  rw [Entries.keys_append, hv.keys_upOf] at hdup
  exact clashes_merge setting rest hnodup hdup hnames

end FirstChild

/-- **The visits of children follow the outline**, and the relations that they hand up are
collected behind those that are there already. -/
theorem walks_visitAll {parent : Fields} (hkeyed : parent.isKeyed = true)
    (ctx : Option Context) (at_ : Pointer) (cs : List (Step × Fields)) :
    (∀ c ∈ cs, c ∈ parent.children ∧ Visits setting c.2) → ∀ (s : Stage η)
    (acc : Entries Scalar (Relation η)), Textual acc → (Entries.keys acc).Nodup →
    let trees := cs.map fun c => (c.1, Tree.ofFields c.2)
    let os := outlineAll setting ctx s.handles.length trees
    Walks setting (actsBelow setting ctx at_ s.handles.length trees)
      (Clashes (Tree.tablesBelow at_ trees) (Entries.keys acc ++ Entries.keys (handedUp os))
        (Tree.regionBelow [] trees) at_) s
      (visitAll setting ctx at_ trees acc)
      fun s' r => HandedAll s' r.1 os ∧ r.2 = acc ++ handedUp r.1 ∧
        (Entries.keys acc ++ Entries.keys (handedUp os)).Nodup ∧
        ∀ t ∈ Tree.tablesBelow at_ trees, t.2.siteNames.Nodup := by
  induction cs with
  | nil =>
    intro _ s acc _ hnodup
    have hnil : acc ++ handedUp ([] : Entries Step (Visit η)) = acc := List.append_nil acc
    refine Walks.pure ⟨HandedAll.nil s, hnil.symm, ?_, by simp [Tree.tablesBelow]⟩
    simpa [outlineAll, handedUp, Entries.keys] using hnodup
  | cons c cs ih =>
    obtain ⟨step, sub⟩ := c
    intro hcs s acc hacc hnodup
    obtain ⟨hc, hvisits⟩ := hcs (step, sub) List.mem_cons_self
    have hrest := ih fun c' hc' => hcs c' (List.mem_cons_of_mem _ hc')
    obtain ⟨hsub, hname⟩ := Fields.keyed_of_mem_children hkeyed hc
    have hstep : ∀ name, some step = some (.property name) → name.isText = true :=
      fun name heq => hname name (Option.some.inj heq)
    intro trees os
    let n := s.handles.length + (Tree.ofFields sub).tableCount
    let o := outline setting ctx (some step) s.handles.length (Tree.ofFields sub)
    let rest := cs.map fun c => (c.1, Tree.ofFields c.2)
    let names := Entries.keys acc ++ Entries.keys (handedUp os)
    let clash := Clashes (Tree.tablesBelow at_ trees) names (Tree.regionBelow [] trees) at_
    have hnames : names = Entries.keys acc ++ (Entries.keys (upOf o) ++
        Entries.keys (handedUp (outlineAll setting ctx n rest))) := by
      rw [← Entries.keys_append]
      rfl
    have hup : Textual (upOf o) := textual_upOf_outline hsub ctx hstep s.handles.length
    have hvisit : Walks setting (acts setting ctx (some step) (at_ ++ step.path) s.handles.length
        (Tree.ofFields sub)) clash s
        (visit setting ctx (some step) (at_ ++ step.path) (Tree.ofFields sub))
        fun s' v => Handed s' v o ∧
          ∀ t ∈ Tree.tablesFrom (at_ ++ step.path) (Tree.ofFields sub), t.2.siteNames.Nodup := by
      refine (hvisits s ctx (some step) (at_ ++ step.path) hstep).mono ?_
        fun s' v _ h => ⟨h.1, h.2.2⟩
      refine fun name p => clashes_first setting rest ?_
      rw [hnames]
      exact (List.sublist_append_left _ _).trans (List.sublist_append_right _ _)
    -- the program and its acts, in the same three parts
    have hvisitAll : visitAll setting ctx at_ trees acc =
        visit setting ctx (some step) (at_ ++ step.path) (Tree.ofFields sub) >>= fun v =>
          accepted (merge acc (upOf v) (at_ ++ step.path)) >>= fun acc' =>
            visitAll setting ctx at_ rest acc' >>= fun r => pure ((step, v) :: r.1, r.2) :=
      visitAll_cons setting ctx at_ step (Tree.ofFields sub) rest acc
    have hacts : actsBelow setting ctx at_ s.handles.length trees =
        acts setting ctx (some step) (at_ ++ step.path) s.handles.length (Tree.ofFields sub) ++
          ([] ++ (actsBelow setting ctx at_ n rest ++ [])) := by
      rw [List.append_nil, List.nil_append]
      rfl
    rw [hvisitAll, hacts]
    refine Walks.bind hvisit ?_
    rintro s₁ v hperforms ⟨hv, htables⟩
    have hfirst : List.Sublist (Entries.keys acc ++ Entries.keys (upOf o)) names := by
      rw [hnames, ← List.append_assoc]
      exact List.sublist_append_left _ _
    refine Walks.bind (walks_mergeFirst setting rest hacc hnodup hup hv hfirst) ?_
    rintro s₁ acc' - ⟨rfl, rfl, hnodup'⟩
    -- the other children start with the tables of the first one registered
    have hn : s₁.handles.length = n := by
      rw [hperforms.length_handles, length_registered_acts]
    have hrestWalks := hrest s₁ (acc ++ upOf v) (textual_append.mpr ⟨hacc, hv.textual_upOf hup⟩)
      hnodup'
    have hnames' : Entries.keys (acc ++ upOf v) ++
        Entries.keys (handedUp (outlineAll setting ctx n rest)) = names := by
      rw [hnames, Entries.keys_append, hv.keys_upOf, List.append_assoc]
    simp only [hn] at hrestWalks
    rw [hnames'] at hrestWalks
    refine Walks.bind (hrestWalks.mono (fun _ _ => clashes_rest rest) fun _ _ _ h => h) ?_
    rintro s₃ ⟨vs', relations⟩ hperforms' ⟨hall, hrelations, hnodup'', htables'⟩
    refine Walks.pure ⟨HandedAll.cons (hv.mono hperforms'.handles_prefix) hall, ?_, hnodup'', ?_⟩
    · rw [handedUp_cons, ← List.append_assoc]
      exact hrelations
    · intro t ht
      rcases List.mem_append.mp ht with ht | ht
      · exact htables t ht
      · exact htables' t ht

/-! ### Nodes -/

theorem badKey?_eq_none (hkeyed : node.isKeyed = true) : badKey? node = none := by
  rw [badKey?, List.find?_eq_none]
  intro k hk
  obtain ⟨e, he, rfl⟩ := List.mem_map.mp hk
  obtain ⟨t, ht⟩ := Scalar.isText_iff.mp (((Fields.isKeyed_iff node).mp hkeyed).2 e he).1
  simp [ht]

/-- A visit, once the names of the node can be read. -/
theorem visit_ofFields (hkeyed : node.isKeyed = true) (hsound : node.Sound setting.settings)
    (above : Option Context) (step : Option Step) (at_ : Pointer) :
    visit setting above step at_ (Tree.ofFields node) =
      noteAll (node.unvisitedTables.map fun p => .notVisited (at_ ++ p)) >>= fun _ =>
        visitAll setting (contextIn setting.settings above step node) at_ node.subtrees [] >>=
          fun r => finish setting (contextIn setting.settings above step node) step at_ node
            r.1 r.2 := by
  rw [Tree.ofFields_eq_node, visit]
  simp only [contextOf_eq_ok hsound, badKey?_eq_none hkeyed, described, pure_bind]

theorem duplicate_of_perm {α : Type} [DecidableEq α] {as bs : List α} (h : as.Perm bs) {a : α}
    (ha : List.Duplicate a as) : List.Duplicate a bs := by
  rw [List.duplicate_iff_two_le_count] at ha ⊢
  rwa [← h.count_eq a]

section Names

variable (setting : Setting η ε) (above : Option Context) (step : Option Step) (start : Nat)

/-- The names of the relations that a node puts together, with that of the one that it becomes
itself. -/
def namesAt (node : Fields) : List Scalar :=
  let ctx := contextIn setting.settings above step node
  let os := outlineAll setting ctx start node.subtrees
  Entries.keys (gathered (setting.words : Setting Nat Unit) ctx os ++
    manyOf setting.words ctx step node os)

/-- A table puts together the relations of its sites. -/
theorem namesAt_perm_siteNames (hkeyed : node.isKeyed = true) (htable : node.isTable = true) :
    (namesAt setting above step start node).Perm (Tree.ofFields node).siteNames := by
  simp only [namesAt, contextIn, if_pos htable, manyOf_of_isTable htable, List.append_nil]
  exact keys_gathered_perm setting hkeyed start _ []

/-- Any other node hands up what it puts together. -/
theorem keys_outline_of_not_table (htable : node.isTable = false) :
    Entries.keys (outline setting above step start (Tree.ofFields node)).relations =
      namesAt setting above step start node := by
  rw [outline_relations_of_not_table htable, namesAt]

variable {setting above step start}

/-- A name that a node puts together twice collides in the table that the node is, or in what it
hands up. -/
theorem clashes_of_duplicate (hkeyed : node.isKeyed = true) {name : Scalar} {p : Pointer}
    (hdup : List.Duplicate name (namesAt setting above step start node))
    (hp : ∃ m ∈ Tree.regionFrom [] (Tree.ofFields node), p = at_ ++ Pointer.ofWay m.1) :
    Clashes (Tree.tablesFrom at_ (Tree.ofFields node))
      (Entries.keys (outline setting above step start (Tree.ofFields node)).relations)
      (Tree.regionFrom [] (Tree.ofFields node)) at_ name p := by
  cases htable : node.isTable with
  | true =>
    have hsites := namesAt_perm_siteNames setting above step start hkeyed htable
    refine Or.inl ⟨(at_, Tree.ofFields node), ?_, duplicate_of_perm hsites hdup, hp⟩
    rw [Tree.tablesFrom_ofFields, if_pos htable]
    exact List.mem_append_right _ (List.mem_singleton.mpr rfl)
  | false =>
    rw [← keys_outline_of_not_table setting above step start htable] at hdup
    exact Or.inr ⟨hdup, hp⟩

/-- What a node hands up has different names if what it puts together has. -/
theorem nodup_keys_outline (h : (namesAt setting above step start node).Nodup) :
    (Entries.keys (outline setting above step start (Tree.ofFields node)).relations).Nodup := by
  cases htable : node.isTable with
  | true =>
    rw [outline_relations_of_isTable htable]
    exact List.nodup_nil
  | false =>
    rwa [keys_outline_of_not_table setting above step start htable]

/-- If the names at a node are different, those of the sites of its table are, as they are in the
tables below. -/
theorem nodup_siteNames (hkeyed : node.isKeyed = true)
    (h : (namesAt setting above step start node).Nodup)
    (hbelow : ∀ t ∈ Tree.tablesBelow at_ node.subtrees, t.2.siteNames.Nodup) :
    ∀ t ∈ Tree.tablesFrom at_ (Tree.ofFields node), t.2.siteNames.Nodup := by
  intro t ht
  rw [Tree.tablesFrom_ofFields] at ht
  rcases List.mem_append.mp ht with ht | ht
  · exact hbelow t ht
  cases htable : node.isTable with
  | true =>
    rw [if_pos htable] at ht
    obtain rfl := List.mem_singleton.mp ht
    exact (namesAt_perm_siteNames setting above step start hkeyed htable).nodup_iff.mp h
  | false => simp [htable] at ht

end Names

/-- **The walk follows its outline.** -/
theorem walks_visit (setting : Setting η ε) (hkeyed : node.isKeyed = true)
    (hsound : ∀ n, node.Walked n → n.Sound setting.settings) : Visits setting node := by
  induction node using Fields.walkInduction with
  | h node ih =>
    intro s above step at_ hstep o
    let ctx := contextIn setting.settings above step node
    let n := s.handles.length
    let os := outlineAll setting ctx n node.subtrees
    have hchildren : ∀ c ∈ node.children, c ∈ node.children ∧ Visits setting c.2 := by
      intro c hc
      refine ⟨hc, ih c hc (Fields.isKeyed_of_mem_children hkeyed hc) fun m hm => ?_⟩
      exact hsound m (hm.of_child hc)
    have hkeys : Entries.keys os = node.children.map (·.1) := by
      rw [keys_outlineAll, Fields.map_fst_subtrees]
    -- the children begin at the stage that is reached when the unvisited tables have been noted
    have hvisitAll := walks_visitAll hkeyed ctx at_ node.children hchildren
      (s.note (node.unvisitedTables.map fun p => .notVisited (at_ ++ p))) [] textual_nil
      (by simp [Entries.keys])
    have hup : Entries.keys ([] : Entries Scalar (Relation η)) ++ Entries.keys (handedUp os) =
        Entries.keys (handedUp os) := List.nil_append _
    rw [visit_ofFields hkeyed (hsound node (Fields.Walked.self node)), acts_ofFields]
    refine Walks.bind (Walks.noteAll _) ?_
    rintro s₁ _ - rfl
    refine Walks.bind (hvisitAll.mono ?_ fun _ _ _ h => h) ?_
    · rintro name p (⟨t, ht, hclash⟩ | ⟨hdup, m, hm, hp⟩)
      · refine Or.inl ⟨t, ?_, hclash⟩
        rw [Tree.tablesFrom_ofFields]
        exact List.mem_append_left _ ht
      · have hsub : List.Sublist (Entries.keys (handedUp os))
            (namesAt setting above step n node) := by
          simp only [namesAt, gathered, Entries.keys_append, List.append_assoc]
          exact List.sublist_append_left _ _
        refine clashes_of_duplicate hkeyed (hdup.mono_sublist hsub) ⟨m, ?_, hp⟩
        rw [Tree.regionFrom_ofFields]
        exact List.mem_cons_of_mem _ hm
    · rintro s₂ ⟨vs, relations⟩ hperforms ⟨hall, hrel, hnodup, hbelow⟩
      -- by now exactly the tables below the node have been registered
      have hplace : s₂.handles.length = n + Tree.countBelow node.subtrees := by
        rw [hperforms.length_handles, length_registered_actsBelow]
        rfl
      obtain rfl : relations = handedUp vs := hrel
      refine (walks_finish hkeyed (hsound node (Fields.Walked.self node)) hall hkeys
        (textual_gathered setting hkeyed ctx n) hnodup hstep ?_).mono (fun _ _ h => h) ?_
      · intro name hdup
        exact clashes_of_duplicate hkeyed hdup
          ⟨_, Tree.mem_regionFrom_self _ _, by simp [Pointer.ofWay]⟩
      · rintro s₃ v - ⟨hv, hnames⟩
        have ho : o = handUp setting ctx step node s₂.handles.length os := by
          rw [hplace]
          exact outline_ofFields setting above step n node
        exact ⟨ho ▸ hv, nodup_keys_outline hnames, nodup_siteNames hkeyed hnames hbelow⟩

end NestedTables.Walk
