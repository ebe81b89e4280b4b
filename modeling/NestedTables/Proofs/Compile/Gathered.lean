import Mathlib.Data.List.Induction
import NestedTables.Proofs.Compile.Results

/-!
# The relations that come together at a table

Going down, a node learns its context; going up, relations come together. This module says that
what comes together at a node is what lies below it in its region: as lists of names and
relations, the relations gathered at a node are those of the sites of its region, in another
order (`Walk.gathered_perm`). The order differs because the walk first takes over what the
children hand up, and only then attaches the tables among the properties; an array attaches
its own relation last of all.

The induction carries the way from the table down to the node. The context of the node is the
context of the table with the keys of that way behind it (`Context.along`), and this is all the
walk knows of the way.
-/

namespace NestedTables

variable {η θ ε : Type}

/-- The context at the end of a way. -/
def Context.along (owner : Context) (way : List Step) : Context :=
  way.foldl (fun ctx step => ctx.child step.key.plain) owner

@[simp] theorem Context.along_nil (owner : Context) : owner.along [] = owner := rfl

theorem Context.along_append_singleton (owner : Context) (way : List Step) (step : Step) :
    owner.along (way ++ [step]) = (owner.along way).child step.key.plain := by
  simp [Context.along]

theorem Context.along_idPath (owner : Context) (way : List Step) :
    (owner.along way).idPath = owner.idPath := by
  induction way using List.reverseRecOn with
  | nil => rfl
  | append_singleton way step ih =>
    rw [Context.along_append_singleton]
    exact ih

/-- The path of a node is the name of its table and the keys on the way, with dots between. -/
theorem Context.along_tablePath (owner : Context) (way : List Step) :
    (owner.along way).tablePath =
      ".".intercalate (owner.tablePath :: way.map fun step => step.key.plain) := by
  induction way using List.reverseRecOn with
  | nil => simp
  | append_singleton way step ih =>
    rw [Context.along_append_singleton, List.map_append, ← List.cons_append,
      String.intercalate_append_of_ne_nil (by simp) (by simp), ← ih]
    simp [Context.child]

/-- The trees of the children of a node. -/
def Fields.subtrees (node : Fields) : List (Step × Tree) :=
  node.children.map fun c => (c.1, Tree.ofFields c.2)

theorem Tree.ofFields_eq_node (node : Fields) : Tree.ofFields node = .node node node.subtrees :=
  Tree.ofFields_eq node

/-- The tables at and below a node: those below it, and then the node if it is one. -/
theorem Tree.tablesFrom_ofFields (at_ : Pointer) (node : Fields) :
    Tree.tablesFrom at_ (Tree.ofFields node) = Tree.tablesBelow at_ node.subtrees ++
      if node.isTable then [(at_, Tree.ofFields node)] else [] := by
  rw [Tree.ofFields_eq_node, Tree.tablesFrom]

theorem Tree.regionFrom_ofFields (way : List Step) (node : Fields) :
    Tree.regionFrom way (Tree.ofFields node) =
      (way, Tree.ofFields node) :: Tree.regionBelow way node.subtrees := by
  rw [Tree.ofFields_eq_node, Tree.regionFrom]

@[simp] theorem Fields.map_fst_subtrees (node : Fields) :
    node.subtrees.map (·.1) = node.children.map (·.1) := by
  simp [Fields.subtrees]

/-- The children of a keyed node are keyed, and the names of its properties are texts. -/
theorem Fields.keyed_of_mem_children {node : Fields} (h : node.isKeyed = true)
    {c : Step × Fields} (hc : c ∈ node.children) :
    c.2.isKeyed = true ∧ ∀ name, c.1 = .property name → name.isText = true := by
  refine ⟨isKeyed_of_mem_children h hc, ?_⟩
  obtain ⟨step, sub⟩ := c
  rintro name rfl
  obtain ⟨properties, hproperties, hmem⟩ := property_mem_children_iff.mp hc
  exact (((isKeyed_iff properties).mp (isKeyed_of_mapping? h hproperties)).2 _ hmem).1

/-- **The relation at a site**, without the handle of its target; `owner` is the context in which
the way to the site begins.

A table under a property is joined by a foreign key of the owner, whose path goes along the way
to the site; an array of tables by the identity of the owner, however deep it lies. -/
def Site.relation (setting : Walk.Setting η ε) (owner : Context) (s : Site) : Relation θ :=
  let table := (s.target.names setting.settings).tableName
  let idPath := s.target.idPath setting.settings
  if s.child.fields.isTable then
    { kind := setting.binder.belongsToOne
      targetTable := table
      joinFrom := some (".".intercalate
        (owner.tablePath :: (s.way.map fun step => step.key.plain) ++ [s.name ++ "_id"]))
      joinTo := idPath }
  else
    let join := s.child.fields.join setting.settings owner.idPath
    { kind := setting.binder.hasMany
      targetTable := table
      joinFrom := some owner.idPath
      joinTo := match join with
        | .column ref => ref
        | .through _ => idPath
        | .foreignKey column => table ++ "." ++ column
      through := match join with
        | .through t => some t
        | _ => none }

/-- The context that a table opens. -/
def Tree.context (settings : Settings) (table : Tree) : Context :=
  .ofTable (table.fields.names settings).tableName (table.fields.names settings).idColumn

namespace Walk

variable (setting : Setting η ε)

theorem outline_ofFields (above : Option Context) (step : Option Step) (start : Nat)
    (node : Fields) :
    outline setting above step start (Tree.ofFields node) =
      handUp setting (contextIn setting.settings above step node) step node
        (start + Tree.countBelow node.subtrees)
        (outlineAll setting (contextIn setting.settings above step node) start node.subtrees) := by
  rw [Tree.ofFields_eq_node, outline]

theorem acts_ofFields (above : Option Context) (step : Option Step) (at_ : Pointer)
    (start : Nat) (node : Fields) :
    acts setting above step at_ start (Tree.ofFields node) =
      [.note (node.unvisitedTables.map fun p => .notVisited (at_ ++ p))] ++
        (actsBelow setting (contextIn setting.settings above step node) at_ start node.subtrees ++
          lastActs setting (contextIn setting.settings above step node) step at_ node
            (outlineAll setting (contextIn setting.settings above step node) start
              node.subtrees)) := by
  rw [Tree.ofFields_eq_node, acts]

/-! ### The results of the children -/

theorem outlineAll_append (ctx : Option Context) (start : Nat) (cs cs' : List (Step × Tree)) :
    outlineAll setting ctx start (cs ++ cs') =
      outlineAll setting ctx start cs ++
        outlineAll setting ctx (start + Tree.countBelow cs) cs' := by
  induction cs generalizing start with
  | nil => simp [outlineAll]
  | cons c cs ih =>
    obtain ⟨step, tree⟩ := c
    rw [List.cons_append, outlineAll, outlineAll, ih, Tree.countBelow_cons, Nat.add_assoc,
      List.cons_append]

theorem outline_of_isTable {node : Fields} (h : node.isTable = true) (above : Option Context)
    (step : Option Step) (start : Nat) :
    outline setting above step start (Tree.ofFields node) =
      { schema := .table (start + Tree.countBelow node.subtrees)
        table := some ⟨(node.names setting.settings).tableName, node.idPath setting.settings,
          start + Tree.countBelow node.subtrees⟩ } := by
  rw [outline_ofFields, handUp, if_pos h]

theorem outline_table_isSome (node : Fields) (above : Option Context) (step : Option Step)
    (start : Nat) :
    (outline setting above step start (Tree.ofFields node)).table.isSome = node.isTable := by
  cases h : node.isTable with
  | true => rw [outline_of_isTable setting h]; rfl
  | false => rw [outline_ofFields, handUp, if_neg (by simp [h])]; rfl

/-- The result of the items of a node. -/
theorem get?_items_outlineAll {node items : Fields} (h : node.mapping? "items" = some items)
    (ctx : Option Context) (start : Nat) :
    ∃ start', (outlineAll setting ctx start node.subtrees).get? .items =
      some (outline setting ctx (some .items) start' (Tree.ofFields items)) := by
  have hsplit : node.subtrees = (node.subschemas.map fun e => (Step.property e.1,
      Tree.ofFields e.2)) ++ [(.items, Tree.ofFields items)] := by
    simp [Fields.subtrees, Fields.children_eq, h]
  rw [hsplit, outlineAll_append, Entries.get?_append, Entries.get?_eq_none_iff.mpr]
  · exact ⟨_, by rw [outlineAll, Entries.get?_cons, if_pos rfl, Option.none_or]⟩
  · simp

/-- **The items of an array of tables** have been registered when the array is reached. -/
theorem exists_items_target {node : Fields} (h : node.kind = .arrayOfTable)
    (ctx : Option Context) (start : Nat) :
    ∃ items place, node.mapping? "items" = some items ∧ items.isTable = true ∧
      ((outlineAll setting ctx start node.subtrees).get? .items).bind Visit.table =
        some ⟨(items.names setting.settings).tableName, items.idPath setting.settings, place⟩ := by
  obtain ⟨-, items, hitems, htable⟩ := Fields.exists_items_of_kind h
  obtain ⟨start', hget⟩ := get?_items_outlineAll setting hitems ctx start
  refine ⟨items, start' + Tree.countBelow items.subtrees, hitems, htable, ?_⟩
  rw [hget, Option.bind_some, outline_of_isTable setting htable]

/-! ### Relations and sites -/

/-- The relations of some sites, under their names. -/
def siteRelations (owner : Context) (sites : List Site) : Entries Scalar (Relation θ) :=
  sites.map fun s => (.text s.name, s.relation setting owner)

@[simp] theorem siteRelations_nil (owner : Context) :
    (siteRelations setting owner [] : Entries Scalar (Relation θ)) = [] := rfl

@[simp] theorem siteRelations_append (owner : Context) (ss ss' : List Site) :
    (siteRelations setting owner (ss ++ ss') : Entries Scalar (Relation θ)) =
      siteRelations setting owner ss ++ siteRelations setting owner ss' := by
  simp [siteRelations]

/-- Relations without the handles of their targets. -/
def bare (relations : Entries Scalar (Relation η)) : Entries Scalar (Relation θ) :=
  relations.mapValues Relation.withoutTarget

@[simp] theorem bare_nil : (bare ([] : Entries Scalar (Relation η)) :
    Entries Scalar (Relation θ)) = [] := rfl

@[simp] theorem bare_append (es fs : Entries Scalar (Relation η)) :
    (bare (es ++ fs) : Entries Scalar (Relation θ)) = bare es ++ bare fs := by
  simp [bare, Entries.mapValues]

@[simp] theorem keys_bare (es : Entries Scalar (Relation η)) :
    Entries.keys (bare es : Entries Scalar (Relation θ)) = Entries.keys es :=
  Entries.keys_mapValues _ _

variable {ctx : Option Context} {owner : Context} {way : List Step} {node : Fields}

/-- The relation to a table under a property is that of the site. -/
theorem bare_one (name : String) (h : node.isTable = true) (step : Option Step) (start : Nat) :
    (bare (one? (setting.words : Setting Nat Unit) (some (owner.along way))
      (.property (.text name), outline setting ctx step start (Tree.ofFields node))).toList :
        Entries Scalar (Relation θ)) =
      siteRelations setting owner [⟨way, name, Tree.ofFields node⟩] := by
  have hpath : (owner.along way).tablePath ++ "." ++ stub (.text name) =
      ".".intercalate ((owner.tablePath :: way.map fun step => step.key.plain) ++
        [name ++ "_id"]) := by
    rw [String.intercalate_append_of_ne_nil (by simp) (by simp), ← Context.along_tablePath]
    simp [stub, Scalar.plain]
  simp [outline_of_isTable setting h, one?, toOne, bare, Entries.mapValues, siteRelations,
    Site.relation, Site.target, h, Relation.withoutTarget, Setting.words, hpath]

/-- The relation of an array of tables is that of the site. -/
theorem bare_many (name : String) (hkind : node.kind = .arrayOfTable) (child : Context)
    (hchild : child.idPath = owner.idPath) (start : Nat) :
    (bare (manyOf (setting.words : Setting Nat Unit) (some child) (some (.property (.text name)))
      node (outlineAll setting (some child) start node.subtrees)) : Entries Scalar (Relation θ)) =
      siteRelations setting owner [⟨way, name, Tree.ofFields node⟩] := by
  obtain ⟨items, place, hitems, -, htarget⟩ :=
    exists_items_target setting hkind (some child) start
  have htable : node.isTable = false := (Fields.exists_items_of_kind hkind).1
  simp only [manyOf, many?, hkind, htarget, Option.toList_some, List.map_cons, List.map_nil, bare,
    Entries.mapValues, siteRelations, Site.relation, Site.target, Tree.fields_ofFields, htable,
    hitems, Bool.false_eq_true, if_false, Option.getD_some, toMany, Relation.withoutTarget,
    Setting.words, hchild]
  cases node.join setting.settings owner.idPath <;> rfl

/-- What is no array of tables becomes no relation to many. -/
theorem many?_of_kind {step : Option Step} (h : node.kind ≠ .arrayOfTable)
    (results : Entries Step (Visit η)) : many? ctx step node results = none := by
  unfold many?
  split
  · next hkind _ => exact absurd hkind h
  · rfl

/-- What is not under a property becomes no relation. -/
theorem many?_items (node : Fields) (results : Entries Step (Visit η)) :
    many? ctx (some .items) node results = none := by
  unfold many?
  split
  · next hstep => simp at hstep
  · rfl

/-- Around no table an array of tables becomes no relation. -/
theorem many?_of_no_context {step : Option Step} (node : Fields)
    (results : Entries Step (Visit η)) : many? none step node results = none := by
  unfold many?
  split
  · next hctx => simp at hctx
  · rfl

theorem manyOf_of_many? {step : Option Step} {results : Entries Step (Visit η)}
    (h : many? ctx step node results = none) : manyOf setting ctx step node results = [] := by
  rw [manyOf, h]
  rfl

/-- A child that is no array of tables and no table makes no site. -/
theorem of?_of_kind {c : Step × Tree} (htable : c.2.fields.isTable = false)
    (hkind : c.2.fields.kind ≠ .arrayOfTable) : Site.of? way c = none := by
  unfold Site.of?
  split
  · refine if_neg ?_
    rintro (h | h)
    · simp [Fields.kind_eq_table_iff.mp h] at htable
    · exact hkind h
  · rfl

theorem of?_property (name : String) {child : Tree}
    (h : child.fields.kind = .table ∨ child.fields.kind = .arrayOfTable) :
    Site.of? way (.property (.text name), child) = some ⟨way, name, child⟩ := by
  simp [Site.of?, h]

/-! ### One child after the other -/

theorem gathered_singleton_of_table {e : Step × Visit η} (h : e.2.table.isSome = true) :
    gathered setting ctx [e] = (one? setting ctx e).toList := by
  rw [gathered, handedUp, List.flatMap_singleton, if_pos h, List.nil_append]
  cases hone : one? setting ctx e <;> simp [hone]

theorem gathered_singleton_of_not_table {e : Step × Visit η} (h : e.2.table.isSome = false) :
    gathered setting ctx [e] = e.2.relations := by
  have hone : one? setting ctx e = none := by
    rw [Option.isSome_eq_false_iff, Option.isNone_iff_eq_none] at h
    unfold one?
    split
    · next htable => simp [h] at htable
    · rfl
  rw [gathered, handedUp, List.flatMap_singleton, if_neg (by simp [h]),
    List.filterMap_cons_none hone, List.filterMap_nil, List.append_nil]

/-- What the first child contributes can be put in front. -/
theorem gathered_cons_perm (e : Step × Visit η) (results : Entries Step (Visit η)) :
    (gathered setting ctx (e :: results)).Perm
      (gathered setting ctx [e] ++ gathered setting ctx results) := by
  have hone : (e :: results).filterMap (one? setting ctx) =
      [e].filterMap (one? setting ctx) ++ results.filterMap (one? setting ctx) := by
    rw [← List.filterMap_append, List.singleton_append]
  have hup : handedUp (e :: results) = handedUp [e] ++ handedUp results := by
    rw [handedUp, handedUp, handedUp, ← List.flatMap_append, List.singleton_append]
  rw [gathered, gathered, gathered, hone, hup]
  exact Tree.append_append_perm _ _ _ _

theorem bare_gathered_cons_perm (e : Step × Visit η) (results : Entries Step (Visit η)) :
    (bare (gathered setting ctx (e :: results)) : Entries Scalar (Relation θ)).Perm
      (bare (gathered setting ctx [e]) ++ bare (gathered setting ctx results)) := by
  rw [← bare_append]
  exact (gathered_cons_perm setting e results).map _

/-- The relations gathered at a node are those of the sites of its region. -/
def GathersSites (setting : Setting η ε) (node : Fields) : Prop :=
  ∀ (start : Nat) (owner : Context) (way : List Step),
    (bare (gathered (setting.words : Setting Nat Unit) (some (owner.along way))
      (outlineAll setting (some (owner.along way)) start node.subtrees)) :
        Entries Scalar (Relation Unit)).Perm
      (siteRelations setting owner (Tree.sitesOf (Tree.regionFrom way (Tree.ofFields node))))

/-- A child contributes the relations of the sites that it adds. -/
theorem gathered_child_perm {step : Step} {sub : Fields}
    (hstep : ∀ name, step = .property name → name.isText = true) (ih : GathersSites setting sub)
    (start : Nat) (owner : Context) (way : List Step) :
    (bare (gathered (setting.words : Setting Nat Unit) (some (owner.along way))
      [(step, outline setting (some (owner.along way)) (some step) start
        (Tree.ofFields sub))]) : Entries Scalar (Relation Unit)).Perm
      (siteRelations setting owner (Tree.sitesAt way (step, Tree.ofFields sub))) := by
  have hname : ∀ name, step = .property name → ∃ s, name = .text s := by
    exact fun name heq => Scalar.isText_iff.mp (hstep name heq)
  have hsome := outline_table_isSome setting sub (some (owner.along way)) (some step) start
  rw [Tree.sitesAt, Tree.fields_ofFields]
  cases htable : sub.isTable with
  | true =>
    rw [gathered_singleton_of_table _ (hsome.trans htable), if_pos rfl, Tree.sitesOf_nil,
      List.append_nil]
    cases step with
    | items => exact List.Perm.refl _
    | property name =>
      obtain ⟨s, rfl⟩ := hname name rfl
      have hkind : (Tree.ofFields sub).fields.kind = .table := Fields.kind_eq_table_iff.mpr htable
      rw [bare_one setting s htable, of?_property s (Or.inl hkind)]
      exact List.Perm.refl _
  | false =>
    have hctx : contextIn setting.settings (some (owner.along way)) (some step) sub =
        some (owner.along (way ++ [step])) := by
      rw [contextIn, htable, Context.along_append_singleton]
      rfl
    have hregion := ih start owner (way ++ [step])
    rw [gathered_singleton_of_not_table _ (hsome.trans htable), outline_ofFields, handUp, htable,
      hctx]
    simp only [Bool.false_eq_true, if_false, bare_append, siteRelations_append]
    -- the child attaches its own relation last, and its site stands first
    refine (hregion.append_right _).trans (List.perm_append_comm.trans ?_)
    refine List.Perm.append_right _ (List.Perm.of_eq ?_)
    by_cases hkind : sub.kind = .arrayOfTable
    · have hkind' : (Tree.ofFields sub).fields.kind = .arrayOfTable := hkind
      cases step with
      | items =>
        rw [manyOf_of_many? _ (many?_items _ _)]
        rfl
      | property name =>
        obtain ⟨s, rfl⟩ := hname name rfl
        rw [bare_many setting s hkind _ (Context.along_idPath owner _),
          of?_property s (Or.inr hkind')]
        rfl
    · have hnone : Site.of? way (step, Tree.ofFields sub) = none := of?_of_kind htable hkind
      rw [manyOf_of_many? _ (many?_of_kind hkind _), hnone]
      rfl

/-- **The relations gathered at a node are those of the sites of its region**, in another
order. -/
theorem gathered_perm (hkeyed : node.isKeyed = true) : GathersSites setting node := by
  induction node using Fields.childInduction (Q := fun cs =>
      (∀ c ∈ cs, c.2.isKeyed = true ∧ ∀ name, c.1 = .property name → name.isText = true) →
      ∀ (start : Nat) (owner : Context) (way : List Step),
      (bare (gathered (setting.words : Setting Nat Unit) (some (owner.along way))
        (outlineAll setting (some (owner.along way)) start
          (cs.map fun c => (c.1, Tree.ofFields c.2)))) : Entries Scalar (Relation Unit)).Perm
        (siteRelations setting owner
          ((cs.map fun c => (c.1, Tree.ofFields c.2)).flatMap (Tree.sitesAt way)))) with
  | hnil => exact List.Perm.refl _
  -- the first child can be put in front, since the order of the relations does not matter
  | hcons step sub cs hsub hcs hmem start owner way =>
    rw [List.forall_mem_cons] at hmem
    obtain ⟨⟨hkeyed, hname⟩, hmem⟩ := hmem
    have hchild := gathered_child_perm setting hname (hsub hkeyed) start owner way
    have hrest := hcs hmem (start + (Tree.ofFields sub).tableCount) owner way
    rw [List.map_cons, outlineAll, List.flatMap_cons, siteRelations_append]
    exact (bare_gathered_cons_perm _ _ _).trans (hchild.append hrest)
  | hnode node hall =>
    intro start owner way
    rw [Tree.ofFields_eq_node]
    refine List.Perm.trans ?_ ((Tree.sitesOf_regionFrom_perm way node node.subtrees).map _).symm
    exact hall (fun _ => Fields.keyed_of_mem_children hkeyed) start owner way

/-- The names gathered at a node. -/
theorem keys_gathered_perm (hkeyed : node.isKeyed = true) (start : Nat) (owner : Context)
    (way : List Step) :
    (Entries.keys (gathered (setting.words : Setting Nat Unit) (some (owner.along way))
      (outlineAll setting (some (owner.along way)) start node.subtrees))).Perm
      ((Tree.sitesOf (Tree.regionFrom way (Tree.ofFields node))).map fun s => .text s.name) := by
  have hperm := (gathered_perm setting hkeyed start owner way).map Prod.fst
  have hkeys : (siteRelations setting owner (Tree.sitesOf (Tree.regionFrom way
      (Tree.ofFields node))) : Entries Scalar (Relation Unit)).map Prod.fst =
      (Tree.sitesOf (Tree.regionFrom way (Tree.ofFields node))).map fun s => .text s.name := by
    simp [siteRelations]
  rw [hkeys] at hperm
  exact (List.Perm.of_eq (keys_bare _).symm).trans hperm

/-- Around no table nothing is gathered. -/
theorem gathered_none (start : Nat) :
    gathered (setting.words : Setting Nat Unit) none
      (outlineAll setting none start node.subtrees) = [] := by
  induction node using Fields.childInduction (Q := fun cs => ∀ start,
      gathered (setting.words : Setting Nat Unit) none
        (outlineAll setting none start (cs.map fun c => (c.1, Tree.ofFields c.2))) = [])
      generalizing start with
  | hnil => rfl
  | hnode node hall => exact hall start
  | hcons step sub cs hsub hcs start =>
    have hsome := outline_table_isSome setting sub none (some step) start
    rw [List.map_cons, outlineAll]
    refine List.perm_nil.mp ((gathered_cons_perm _ _ _).trans (List.Perm.of_eq ?_))
    rw [hcs, List.append_nil]
    cases htable : sub.isTable with
    | true =>
      rw [gathered_singleton_of_table _ (hsome.trans htable)]
      cases step <;> simp [one?]
    | false =>
      have hctx : contextIn setting.settings none (some step) sub = none := by
        simp [contextIn, htable]
      rw [gathered_singleton_of_not_table _ (hsome.trans htable), outline_ofFields, handUp,
        htable, hctx]
      simp only [Bool.false_eq_true, if_false]
      rw [hsub, manyOf_of_many? _ (many?_of_no_context _ _), List.append_nil]

/-- The names gathered at a node are texts. -/
theorem textual_gathered (hkeyed : node.isKeyed = true) (ctx : Option Context) (start : Nat) :
    Textual (gathered (setting.words : Setting Nat Unit) ctx
      (outlineAll setting ctx start node.subtrees)) := by
  cases ctx with
  | none =>
    rw [gathered_none]
    exact textual_nil
  | some owner =>
    intro k hk
    have hmem := (keys_gathered_perm setting hkeyed start owner []).mem_iff.mp hk
    obtain ⟨_, _, rfl⟩ := List.mem_map.mp hmem
    rfl

end Walk

end NestedTables
