import NestedTables.Proofs.Compile.Located
import NestedTables.Proofs.Override.Reordered

/-!
# Tables and the order of properties

A table that is registered from a node is compared here with the one that is registered from the
node in another order. The walk goes through the properties in their order, and every property
becomes one column at most. If no property has the name of a foreign key that a table leaves, no
column takes the place of another one. So the columns of the two are the same, but for their order
(`Walk.shuffled_columnsOf`), and this holds in every node inside the table in turn
(`Walk.becomesReordered`).

The tables that stay inside the two nodes are seen with the schemas of their own descriptors. That
these correspond is taken for granted here (`Matches`): it is what an induction over the places
gives.
-/

namespace NestedTables

variable {η ε : Type}

/-- Whether the schemas of two runs go along with each other: those of two tables with one pointer
differ in nothing but the order of properties. -/
def Matches (schemas schemas' : List Fields) (placed placed' : List ((Pointer × Tree) × Nat)) :
    Prop :=
  ∀ t ∈ placed, ∀ t' ∈ placed', t.1.1 = t'.1.1 →
    (schemas.getD t.2 []).Reordered (schemas'.getD t'.2 [])

theorem Matches.mono {schemas schemas' : List Fields}
    {placed placed' part part' : List ((Pointer × Tree) × Nat)}
    (h : Matches schemas schemas' placed placed') (hsub : part ⊆ placed)
    (hsub' : part' ⊆ placed') : Matches schemas schemas' part part' :=
  fun t ht t' ht' => h t (hsub ht) t' (hsub' ht')

/-- Both nodes open the same context. -/
theorem Fields.Reordered.context_eq {node node' : Fields} (h : node.Reordered node')
    {settings : Settings} :
    (Tree.ofFields node).context settings = (Tree.ofFields node').context settings := by
  rw [Tree.context, Tree.context, Tree.fields_ofFields, Tree.fields_ofFields, h.names_eq]

/-- Where no property has the name of a foreign key, none has in another order. -/
theorem Fields.Reordered.stubsFree {node node' : Fields} (h : node.Reordered node')
    (hfree : node.StubsFree) : node'.StubsFree := by
  have hproperties := h.rel_properties
  unfold Fields.StubsFree at hfree ⊢
  generalize node.mapping? "properties" = ps, node'.mapping? "properties" = ps'
    at hproperties hfree ⊢
  cases hproperties with
  | none => exact hfree
  | some hshuffled =>
    rintro ⟨name, v'⟩ he' htable' hmem
    obtain ⟨v, he, hrel⟩ := hshuffled.symm.exists_mem he'
    have htable : v.isTable = true := by
      rwa [← Rewriting.nodeKind_eq_table_iff, ← hrel.nodeKind_eq,
        Rewriting.nodeKind_eq_table_iff]
    exact hfree _ he htable (hshuffled.keys_perm.mem_iff.mpr hmem)

namespace Walk

variable {setting : Setting η ε} {schemas schemas' : List Fields} {node node' : Fields}

/-! ### A node whose children are known -/

/-- What a node becomes, with the schemas put in. -/
theorem mapValues_keptOf (ctx : Option Context) (results : Entries Step (Visit Nat)) :
    (keptOf (setting.words : Setting Nat Unit) ctx node results).mapValues
        (Fragment.resolve schemas) =
      let kept := (withoutOverrides setting.settings node).mapValues (Fragment.resolve schemas)
      let kept := (node.mapping? "properties").elim kept fun properties =>
        kept.put propertiesKey (.map ((columnsOf (setting.words : Setting Nat Unit) ctx results
          properties).mapValues (Fragment.resolve schemas)))
      ((results.get? .items).map fun result => result.schema.resolve schemas).elim kept
        (kept.put (.text "items") ·) := by
  unfold keptOf
  cases node.mapping? "properties" <;> cases results.get? .items <;>
    simp [Entries.mapValues_put, Fragment.resolve, Fragment.resolveEntries_eq_mapValues,
      Setting.words]

/-- Two nodes become nodes that differ in the order of properties if their columns and their items
do. -/
theorem reordered_keptOf_of_children (h : node.Reordered node') {ctx : Option Context}
    {results results' : Entries Step (Visit Nat)}
    (hcolumns : ∀ properties properties', node.mapping? "properties" = some properties →
      node'.mapping? "properties" = some properties' → properties.Shuffled properties' →
        Fields.Shuffled
          ((columnsOf (setting.words : Setting Nat Unit) ctx results properties).mapValues
            (Fragment.resolve schemas))
          ((columnsOf (setting.words : Setting Nat Unit) ctx results' properties').mapValues
            (Fragment.resolve schemas')))
    (hitems : Option.Rel Value.Reordered
      ((results.get? .items).map fun result => result.schema.resolve schemas)
      ((results'.get? .items).map fun result => result.schema.resolve schemas')) :
    Fields.Reordered
      (Fragment.resolveEntries schemas (keptOf (setting.words : Setting Nat Unit) ctx node results))
      (Fragment.resolveEntries schemas'
        (keptOf (setting.words : Setting Nat Unit) ctx node' results')) := by
  let w : Rewriting := ⟨setting.settings, fun _ => []⟩
  have hkept : Fields.Reordered
      ((withoutOverrides setting.settings node).mapValues (Fragment.resolve schemas))
      ((withoutOverrides setting.settings node').mapValues (Fragment.resolve schemas')) := by
    rw [resolve_withoutOverrides (w := w) rfl, resolve_withoutOverrides (w := w) rfl]
    exact h.filter fun k => !w.owns k
  have hproperties := h.rel_properties
  rw [Fragment.resolveEntries_eq_mapValues, Fragment.resolveEntries_eq_mapValues,
    mapValues_keptOf, mapValues_keptOf]
  generalize hps : node.mapping? "properties" = ps, hps' : node'.mapping? "properties" = ps',
    (withoutOverrides setting.settings node).mapValues (Fragment.resolve schemas) = kept,
    (withoutOverrides setting.settings node').mapValues (Fragment.resolve schemas') = kept',
    (results.get? .items).map (fun result => result.schema.resolve schemas) = item,
    (results'.get? .items).map (fun result => result.schema.resolve schemas') = item'
    at hkept hproperties hitems ⊢
  have hinner : Fields.Reordered
      (ps.elim kept fun properties => kept.put propertiesKey (.map ((columnsOf
        (setting.words : Setting Nat Unit) ctx results properties).mapValues
          (Fragment.resolve schemas))))
      (ps'.elim kept' fun properties => kept'.put propertiesKey (.map ((columnsOf
        (setting.words : Setting Nat Unit) ctx results' properties).mapValues
          (Fragment.resolve schemas')))) := by
    cases hproperties with
    | none => exact hkept
    | some hshuffled =>
      exact hkept.put (Or.inr (Or.inr ⟨rfl, _, _, rfl, rfl, hcolumns _ _ hps hps' hshuffled⟩))
  cases hitems with
  | none => exact hinner
  | some hitem => exact hinner.put (Or.inr (Or.inl ⟨rfl, hitem⟩))

/-! ### The columns of a node -/

/-- What has become of a property, with the schemas put in. What is no node is there as it is. -/
def valueIn (schemas : List Fields) (results : Entries Step (Visit Nat)) (e : Scalar × Value) :
    Value :=
  ((results.get? (.property e.1)).map fun result => result.schema.resolve schemas).getD e.2

section Columns

variable (hkeyed : node.isKeyed = true) {properties : Fields}
  (hproperties : node.mapping? "properties" = some properties) (owner : Context) (start : Nat)
include hkeyed hproperties

theorem becomesColumn {e : Scalar × Value} (he : e ∈ properties) :
    let results := outlineAll setting (some owner) start node.subtrees
    BecomesColumn schemas results e.1 e.2 (valueIn schemas results e) where
  verbatim hv := by
    rw [valueIn, get?_outlineAll_of_verbatim setting hkeyed hproperties he hv]
    rfl
  rewritten sub hsub _ _ := by
    obtain ⟨name, v⟩ := e
    obtain rfl : v = .map sub := hsub
    have hc : (Step.property name, sub) ∈ node.children :=
      Fields.property_mem_children_iff.mpr ⟨properties, hproperties, he⟩
    obtain ⟨start', hget, -⟩ := get?_outlineAll setting (Fields.nodup_steps hkeyed) hc
      (some owner) start
    have hget' : (outlineAll setting (some owner) start node.subtrees).get? (.property name) =
      some _ := hget
    exact ⟨_, hget', by rw [valueIn, hget', Option.map_some, Option.getD_some]⟩

/-- The columns of a node have different names if none of its properties has the name of a foreign
key. -/
theorem distinct_flatMap_columnOf (hfree : node.StubsFree) (value : Scalar × Value → Value) :
    Entries.Distinct (properties.flatMap fun e =>
      columnOf setting.settings (value e) e.1 e.2) := by
  let w : Rewriting := ⟨setting.settings, fun _ => []⟩
  have hdistinct : Entries.Distinct (w.columns [] properties) :=
    Rewriting.distinct_columns hkeyed hfree hproperties
  have hkeys : ∀ e : Scalar × Value, Entries.keys (columnOf setting.settings (value e) e.1 e.2) =
      Entries.keys (w.column [] e.1 e.2) := by
    intro e
    unfold columnOf Rewriting.column
    cases e.2.nodeKind <;> rfl
  rw [Entries.Distinct, Rewriting.columns_eq_flatMap, Entries.keys, List.map_flatMap] at hdistinct
  rw [Entries.Distinct, Entries.keys, List.map_flatMap]
  exact (List.flatMap_congr fun e _ => hkeys e) ▸ hdistinct

/-- The columns of a node stand one after the other. -/
theorem mapValues_columnsOf (hfree : node.StubsFree) :
    let results := outlineAll setting (some owner) start node.subtrees
    (columnsOf (setting.words : Setting Nat Unit) (some owner) results properties).mapValues
        (Fragment.resolve schemas) =
      properties.flatMap fun e =>
        columnOf setting.settings (valueIn schemas results e) e.1 e.2 := by
  intro results
  rw [columnsOf_eq_foldl setting hkeyed hproperties,
    mapValues_foldl_withColumnOf fun e he => becomesColumn hkeyed hproperties owner start he]
  exact Entries.ofPairs_eq_self (distinct_flatMap_columnOf hkeyed hproperties hfree _)

end Columns

/-! ### The recursion -/

variable (setting schemas schemas') in
/-- Whether a node inside a table becomes the same, but for the order of properties, if it is
written in another order. -/
def BecomesReordered (node : Fields) : Prop :=
  ∀ (node' : Fields) (owner : Context) (start start' : Nat) (at_ : Pointer),
    node.Reordered node' →
    Matches schemas schemas' ((Tree.tablesBelow at_ node.subtrees).zipIdx start)
      ((Tree.tablesBelow at_ node'.subtrees).zipIdx start') →
    Fields.Reordered
      (Fragment.resolveEntries schemas (keptOf (setting.words : Setting Nat Unit) (some owner) node
        (outlineAll setting (some owner) start node.subtrees)))
      (Fragment.resolveEntries schemas' (keptOf (setting.words : Setting Nat Unit) (some owner)
        node' (outlineAll setting (some owner) start' node'.subtrees)))

section Children

variable (h : node.Reordered node') (owner : Context) {start start' : Nat} {at_ : Pointer}
  (hkeyed : node.isKeyed = true)
  (hmatches : Matches schemas schemas' ((Tree.tablesBelow at_ node.subtrees).zipIdx start)
    ((Tree.tablesBelow at_ node'.subtrees).zipIdx start'))
include h hkeyed hmatches

/-- A child is a table, or it is compared in turn. -/
theorem reordered_outline {step : Step} {sub sub' : Fields} (hc : (step, sub) ∈ node.children)
    (hc' : (step, sub') ∈ node'.children) (hrel : sub.Reordered sub')
    (hsub : BecomesReordered setting schemas schemas' sub) :
    ∃ result result',
      (outlineAll setting (some owner) start node.subtrees).get? step = some result ∧
      (outlineAll setting (some owner) start' node'.subtrees).get? step = some result' ∧
      (result.schema.resolve schemas).Reordered (result'.schema.resolve schemas') := by
  obtain ⟨first, hget, hplaced⟩ := get?_outlineAll setting (Fields.nodup_steps hkeyed) hc
    (some owner) start
  obtain ⟨first', hget', hplaced'⟩ := get?_outlineAll setting
    (Fields.nodup_steps (h.isKeyed hkeyed)) hc' (some owner) start'
  have hbelow := hmatches.mono (hplaced at_) (hplaced' at_)
  refine ⟨_, _, hget, hget', ?_⟩
  cases htable : sub.isTable with
  | true =>
    have htable' : sub'.isTable = true := hrel.isTable_eq ▸ htable
    rw [outline_of_isTable setting htable, outline_of_isTable setting htable']
    exact .node (hbelow _ (Tree.self_mem_zipIdx htable _ first) _
      (Tree.self_mem_zipIdx htable' _ first') rfl)
  | false =>
    have htable' : sub'.isTable = false := hrel.isTable_eq ▸ htable
    have hctx : ∀ n : Fields, n.isTable = false →
        contextIn setting.settings (some owner) (some step) n =
          some (owner.child step.key.plain) := by
      intro n hn
      simp [contextIn, hn]
    rw [outline_ofFields, outline_ofFields, handUp, handUp, if_neg (by simp [htable]),
      if_neg (by simp [htable']), hctx sub htable, hctx sub' htable']
    exact .node (hsub sub' _ first first' (at_ ++ step.path) hrel
      (hbelow.mono (Tree.zipIdx_tablesBelow_subset_tablesFrom sub _ first)
        (Tree.zipIdx_tablesBelow_subset_tablesFrom sub' _ first')))

variable (hsub : ∀ c ∈ node.children, BecomesReordered setting schemas schemas' c.2)
include hsub

/-- The items of a node. -/
theorem reordered_items : Option.Rel Value.Reordered
    (((outlineAll setting (some owner) start node.subtrees).get? .items).map fun result =>
      result.schema.resolve schemas)
    (((outlineAll setting (some owner) start' node'.subtrees).get? .items).map fun result =>
      result.schema.resolve schemas') := by
  cases hitems : node.mapping? "items" with
  | some items =>
    have hc := Fields.items_mem_children_iff.mpr hitems
    obtain ⟨items', hc', hrel⟩ := h.exists_child hc
    obtain ⟨result, result', hget, hget', hresult⟩ :=
      reordered_outline h owner hkeyed hmatches hc hc' hrel (hsub _ hc)
    rw [hget, hget']
    exact .some hresult
  | none =>
    have hitems' : node'.mapping? "items" = none := by
      have hsome := h.isSome_items
      rwa [hitems, Option.isSome_none, eq_comm, Option.isSome_eq_false_iff,
        Option.isNone_iff_eq_none] at hsome
    rw [get?_items_outlineAll_of_none setting hitems, get?_items_outlineAll_of_none setting hitems']
    exact .none

/-- **The columns of a node in another order** are the same, but for their order. -/
theorem shuffled_columnsOf (hfree : node.StubsFree) (hfree' : node'.StubsFree)
    {properties properties' : Fields} (hproperties : node.mapping? "properties" = some properties)
    (hproperties' : node'.mapping? "properties" = some properties')
    (hshuffled : properties.Shuffled properties') :
    Fields.Shuffled
      ((columnsOf (setting.words : Setting Nat Unit) (some owner)
        (outlineAll setting (some owner) start node.subtrees) properties).mapValues
          (Fragment.resolve schemas))
      ((columnsOf (setting.words : Setting Nat Unit) (some owner)
        (outlineAll setting (some owner) start' node'.subtrees) properties').mapValues
          (Fragment.resolve schemas')) := by
  have hkeyed' := h.isKeyed hkeyed
  rw [mapValues_columnsOf hkeyed hproperties owner start hfree,
    mapValues_columnsOf hkeyed' hproperties' owner start' hfree']
  refine hshuffled.flatMap fun name v v' hv hv' hrel => ?_
  have hvalue : (valueIn schemas (outlineAll setting (some owner) start node.subtrees)
      (name, v)).Reordered (valueIn schemas'
        (outlineAll setting (some owner) start' node'.subtrees) (name, v')) := by
    have hfields := hrel.fields?
    generalize hsubs : v.fields? = subs, hsubs' : v'.fields? = subs' at hfields
    cases hfields with
    | none =>
      rw [valueIn, valueIn, get?_outlineAll_of_verbatim setting hkeyed hproperties hv hsubs,
        get?_outlineAll_of_verbatim setting hkeyed' hproperties' hv' hsubs']
      exact hrel
    | @some sub sub' hsubrel =>
      obtain rfl : v = .map sub := by cases v <;> simp_all [Value.fields?]
      obtain rfl : v' = .map sub' := by cases v' <;> simp_all [Value.fields?]
      have hc : (Step.property name, sub) ∈ node.children :=
        Fields.property_mem_children_iff.mpr ⟨properties, hproperties, hv⟩
      have hc' : (Step.property name, sub') ∈ node'.children :=
        Fields.property_mem_children_iff.mpr ⟨properties', hproperties', hv'⟩
      obtain ⟨result, result', hget, hget', hresult⟩ :=
        reordered_outline h owner hkeyed hmatches hc hc' hsubrel (hsub _ hc)
      rw [valueIn, valueIn, hget, hget']
      exact hresult
  simp only [columnOf, hrel.nodeKind_eq]
  cases v'.nodeKind with
  | table => exact .cons ⟨rfl, .refl _⟩ .nil
  | arrayOfTable => exact .nil
  | embedded | arrayOfEmbedded | scalar => exact .cons ⟨rfl, hvalue⟩ .nil

end Children

/-- **What a node inside a table becomes** is the same in another order, but for the order of
properties. -/
theorem becomesReordered (hkeyed : node.isKeyed = true)
    (hfree : ∀ n, node.Walked n → n.StubsFree) :
    BecomesReordered setting schemas schemas' node := by
  induction node using Fields.walkInduction with
  | h node ih =>
    have hsub : ∀ c ∈ node.children, BecomesReordered setting schemas schemas' c.2 := fun c hc =>
      ih c hc (Fields.isKeyed_of_mem_children hkeyed hc) fun n hn => hfree n (hn.of_child hc)
    have hself := hfree node (.self node)
    intro node' owner start start' at_ h hmatches
    exact reordered_keptOf_of_children h
      (fun _ _ hproperties hproperties' hshuffled => shuffled_columnsOf h owner hkeyed hmatches hsub
        hself (h.stubsFree hself) hproperties hproperties' hshuffled)
      (reordered_items h owner hkeyed hmatches hsub)

/-! ### The table that a node becomes -/

section Table

variable (h : node.Reordered node') (hkeyed : node.isKeyed = true)
  (hfree : ∀ n, node.Walked n → n.StubsFree) {start start' : Nat} {at_ : Pointer}
  (hmatches : Matches schemas schemas' ((Tree.tablesBelow at_ node.subtrees).zipIdx start)
    ((Tree.tablesBelow at_ node'.subtrees).zipIdx start'))
include h hkeyed hfree hmatches

/-- **The columns that a table has from its own node** are the same in another order. -/
theorem shuffled_ownColumns : Fields.Shuffled
    ((ownColumns setting start node).mapValues (Fragment.resolve schemas))
    ((ownColumns setting start' node').mapValues (Fragment.resolve schemas')) := by
  have hsub : ∀ c ∈ node.children, BecomesReordered setting schemas schemas' c.2 := fun c hc =>
    becomesReordered (Fields.isKeyed_of_mem_children hkeyed hc) fun n hn => hfree n (hn.of_child hc)
  have hself := hfree node (.self node)
  have hproperties := h.rel_properties
  rw [ownColumns, ownColumns, Entries.mapValues_filter, Entries.mapValues_filter,
    ← h.context_eq]
  refine Fields.Shuffled.filter ?_ setting.leaves
  generalize hps : node.mapping? "properties" = ps, hps' : node'.mapping? "properties" = ps'
    at hproperties
  cases hproperties with
  | none => exact .of_perm (.refl _)
  | some hshuffled =>
    rw [Option.getD_some, Option.getD_some, ← columnsOf_eq_foldl setting hkeyed hps,
      ← columnsOf_eq_foldl setting (h.isKeyed hkeyed) hps']
    exact shuffled_columnsOf h _ hkeyed hmatches hsub hself (h.stubsFree hself) hps hps' hshuffled

end Table

end Walk

/-- **The table that a node becomes** has the same schema in another order, but for the order of
properties, if the same foreign keys are asked for. -/
theorem Draft.reordered_located {setting : Walk.Setting η ε} {node node' : Fields}
    (h : node.Reordered node') (hkeyed : node.isKeyed = true)
    (hfree : ∀ n, node.Walked n → n.StubsFree) {schemas schemas' : List Fields} {at_ : Pointer}
    (hmatches : Matches schemas schemas' (Tree.tablesBelow at_ node.subtrees).zipIdx
      (Tree.tablesBelow at_ node'.subtrees).zipIdx)
    (handles handles' : List η) {columns columns' : List String} (hnodup : columns.Nodup)
    (hcolumns : columns.Perm columns') :
    ((setting.draft node).located setting.settings schemas handles columns).schema.Reordered
      ((setting.draft node').located setting.settings schemas' handles' columns').schema := by
  have hown : Fields.Shuffled
      ((Walk.ownColumns setting 0 node).mapValues (Fragment.resolve schemas))
      ((Walk.ownColumns setting 0 node').mapValues (Fragment.resolve schemas')) :=
    Walk.shuffled_ownColumns h hkeyed hfree hmatches
  have hhas : ∀ column : String, (Walk.ownColumns setting 0 node).has (.text column) =
      (Walk.ownColumns setting 0 node').has (.text column) := by
    intro column
    have hkeys := hown.keys_perm.mem_iff (a := .text column)
    rw [Entries.keys_mapValues, Entries.keys_mapValues] at hkeys
    rw [Bool.eq_iff_iff, Entries.has_iff, Entries.has_iff, hkeys]
  have hbecomes : Walk.BecomesReordered setting schemas schemas' node :=
    Walk.becomesReordered hkeyed hfree
  have hkept := hbecomes node' ((Tree.ofFields node).context setting.settings) 0 0 at_ h hmatches
  rw [Draft.schema_located setting hkeyed schemas handles hnodup,
    Draft.schema_located setting (h.isKeyed hkeyed) schemas' handles'
      (hcolumns.nodup_iff.mp hnodup), ← h.context_eq]
  simp only [← hhas]
  refine hkept.put (Or.inr (Or.inr ⟨rfl, _, _, rfl, rfl, hown.append (.of_perm ?_)⟩))
  exact (hcolumns.filter _).map _

end NestedTables
