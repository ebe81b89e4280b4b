import NestedTables.Proofs.Compile.Handed
import NestedTables.Proofs.Compile.Replay

/-!
# The columns that a table has from its own node

A table is registered with what the properties of its node become, one after the other. A table
leaves a stub, which is a foreign key to it; an array of tables leaves nothing, since its rows
will point back; any other node leaves what has become of it; and what is no node stays as it is.
Of these columns the binder keeps some for itself (`Walk.ownColumns`).

The walk decides what a property becomes by the results of the visits, and not by what the
property is. That this comes to the same is what has to be shown (`Walk.columnsOf_eq_foldl`).
-/

namespace NestedTables.Walk

variable {η θ ε : Type} (setting : Setting η ε)

/-- Some columns, and what a property of a table becomes behind them; `results` are those of the
children of the table. -/
def withColumnOf (settings : Settings) (results : Entries Step (Visit θ))
    (columns : Entries Scalar Fragment) (e : Scalar × Value) : Entries Scalar Fragment :=
  match e.2.fields? with
  | none => columns.put e.1 (.verbatim e.2)
  | some sub =>
    match sub.kind with
    | .table => columns.put (.text (stub e.1)) (.verbatim (.map settings.foreignKey))
    | .arrayOfTable => columns
    | _ => columns.put e.1
      (((results.get? (.property e.1)).map Visit.schema).getD (.map []))

/-- Whether the binder leaves a column to the tables. -/
def Setting.leaves (setting : Setting η ε) : Scalar → Bool
  | .text name => !setting.binder.virtual.contains name
  | _ => true

/-- **The columns that a table has from its own node**, without those that the binder keeps for
itself; `start` is the number of tables registered before those inside the table. -/
def ownColumns (start : Nat) (table : Fields) : Entries Scalar Fragment :=
  let ctx := some ((Tree.ofFields table).context setting.settings)
  let results := outlineAll setting ctx start table.subtrees
  let columns := ((table.mapping? "properties").getD []).foldl
    (withColumnOf setting.settings results) []
  columns.filter fun e => setting.leaves e.1

/-- What a property of a table becomes: one column at most. `value` is what becomes of a property
that is neither a table nor an array of tables. -/
def columnOf (settings : Settings) (value : Value) (name : Scalar) (v : Value) : Fields :=
  match v.nodeKind with
  | .table => [(.text (stub name), .map settings.foreignKey)]
  | .arrayOfTable => []
  | _ => [(name, value)]

/-- Whether a value is what has become of a property, if the property stays a column, when the
schemas are put in. -/
structure BecomesColumn (schemas : List Fields) (results : Entries Step (Visit Nat)) (name : Scalar)
    (v value : Value) : Prop where
  verbatim : v.fields? = none → value = v
  rewritten : ∀ sub : Fields, v = .map sub → sub.kind ≠ .table → sub.kind ≠ .arrayOfTable →
    ∃ result, results.get? (.property name) = some result ∧ result.schema.resolve schemas = value

theorem mapValues_withColumnOf {settings : Settings} {schemas : List Fields}
    {results : Entries Step (Visit Nat)} {name : Scalar} {v value : Value}
    (h : BecomesColumn schemas results name v value) (columns : Entries Scalar Fragment) :
    (withColumnOf settings results columns (name, v)).mapValues (Fragment.resolve schemas) =
      (columnOf settings value name v).foldl (fun es e => Entries.put e.1 e.2 es)
        (columns.mapValues (Fragment.resolve schemas)) := by
  cases hv : v.fields? with
  | none =>
    have hkind : v.nodeKind = .scalar := by
      cases v <;> simp_all [Value.nodeKind, Value.fields?]
    simp [withColumnOf, hv, columnOf, hkind, h.verbatim hv, Entries.mapValues_put,
      Fragment.resolve]
  | some sub =>
    obtain rfl : v = .map sub := by
      cases v <;> simp_all [Value.fields?]
    have hkind : Value.nodeKind (.map sub) = sub.kind := rfl
    cases hsub : sub.kind with
    | table =>
      simp [withColumnOf, hv, columnOf, hkind, hsub, Entries.mapValues_put, Fragment.resolve]
    | arrayOfTable => simp [withColumnOf, hv, columnOf, hkind, hsub]
    | embedded | arrayOfEmbedded | scalar =>
      obtain ⟨result, hget, hresult⟩ := h.rewritten sub rfl (by simp [hsub]) (by simp [hsub])
      simp [withColumnOf, hv, columnOf, hkind, hsub, Entries.mapValues_put, hget, hresult]

/-- **The columns of a table, with the schemas put in**, are put together property by property. -/
theorem mapValues_foldl_withColumnOf {settings : Settings} {schemas : List Fields}
    {results : Entries Step (Visit Nat)} {value : Scalar × Value → Value} {properties : Fields}
    (h : ∀ e ∈ properties, BecomesColumn schemas results e.1 e.2 (value e)) :
    (properties.foldl (withColumnOf settings results) []).mapValues (Fragment.resolve schemas) =
      Entries.ofPairs (properties.flatMap fun e => columnOf settings (value e) e.1 e.2) := by
  suffices hfold : ∀ columns : Entries Scalar Fragment,
      (properties.foldl (withColumnOf settings results) columns).mapValues
          (Fragment.resolve schemas) =
        (properties.flatMap fun e => columnOf settings (value e) e.1 e.2).foldl
          (fun es e => Entries.put e.1 e.2 es) (columns.mapValues (Fragment.resolve schemas)) from
    hfold []
  induction properties with
  | nil => exact fun _ => rfl
  | cons e properties ih =>
    rw [List.forall_mem_cons] at h
    intro columns
    rw [List.foldl_cons, ih h.2, List.flatMap_cons, List.foldl_append, mapValues_withColumnOf h.1]

/-! ### The results of the properties -/

variable {node : Fields}

/-- A result is that of a child, and the tables at and below the child have the places among those
below the node that their numbers in the outline of the child give them. -/
theorem mem_outlineAll {cs : List (Step × Fields)} {ctx : Option Context} {start : Nat}
    {e : Step × Visit Nat}
    (he : e ∈ outlineAll setting ctx start (cs.map fun c => (c.1, Tree.ofFields c.2))) :
    ∃ c ∈ cs, ∃ start', e = (c.1, outline setting ctx (some c.1) start' (Tree.ofFields c.2)) ∧
      ∀ at_ : Pointer, (Tree.tablesFrom (at_ ++ c.1.path) (Tree.ofFields c.2)).zipIdx start' ⊆
        (Tree.tablesBelow at_ (cs.map fun c => (c.1, Tree.ofFields c.2))).zipIdx start := by
  induction cs generalizing start with
  | nil => simp [outlineAll] at he
  | cons c cs ih =>
    rw [List.map_cons, outlineAll] at he
    rcases List.mem_cons.mp he with rfl | he
    · refine ⟨c, List.mem_cons_self, start, rfl, fun at_ => ?_⟩
      rw [List.map_cons, Tree.tablesBelow, List.zipIdx_append]
      exact List.subset_append_left _ _
    · obtain ⟨c', hc', start', heq, hplaced⟩ := ih he
      refine ⟨c', List.mem_cons_of_mem _ hc', start', heq, fun at_ =>
        List.Subset.trans (hplaced at_) ?_⟩
      rw [List.map_cons, Tree.tablesBelow, List.zipIdx_append, Tree.length_tablesFrom]
      exact List.subset_append_right _ _

/-- The result of a child is found by the step to it. -/
theorem get?_outlineAll {cs : List (Step × Fields)} (hsteps : (cs.map (·.1)).Nodup)
    {step : Step} {sub : Fields} (hmem : (step, sub) ∈ cs) (ctx : Option Context) (start : Nat) :
    ∃ start', (outlineAll setting ctx start (cs.map fun c => (c.1, Tree.ofFields c.2))).get? step =
        some (outline setting ctx (some step) start' (Tree.ofFields sub)) ∧
      ∀ at_ : Pointer, (Tree.tablesFrom (at_ ++ step.path) (Tree.ofFields sub)).zipIdx start' ⊆
        (Tree.tablesBelow at_ (cs.map fun c => (c.1, Tree.ofFields c.2))).zipIdx start := by
  have hkey : step ∈ (outlineAll setting ctx start
      (cs.map fun c => (c.1, Tree.ofFields c.2))).keys := by
    rw [keys_outlineAll, List.map_map]
    exact List.mem_map.mpr ⟨_, hmem, rfl⟩
  obtain ⟨result, hget⟩ := Option.isSome_iff_exists.mp ((Entries.mem_keys_iff ..).mp hkey)
  obtain ⟨c, hc, start', heq, hplaced⟩ :=
    mem_outlineAll setting (Entries.mem_of_get?_eq_some hget)
  obtain ⟨hstep, rfl⟩ := Prod.mk.inj heq
  -- there is one child under each step
  obtain rfl : c = (step, sub) := List.inj_on_of_nodup_map hsteps hc hmem hstep.symm
  exact ⟨start', hget, hplaced⟩

/-- What is no node has no result. -/
theorem get?_outlineAll_of_verbatim (hkeyed : node.isKeyed = true) {properties : Fields}
    (hproperties : node.mapping? "properties" = some properties) {name : Scalar} {v : Value}
    (hmem : (name, v) ∈ properties) (hv : v.fields? = none) (ctx : Option Context) (start : Nat) :
    (outlineAll setting ctx start node.subtrees).get? (.property name) = none := by
  rw [Entries.get?_eq_none_iff, keys_outlineAll, Fields.map_fst_subtrees]
  intro hstep
  obtain ⟨⟨_, sub⟩, hc, rfl⟩ := List.mem_map.mp hstep
  -- a child under the same name would be the same property, and that is no node
  obtain ⟨properties', hproperties', hsub⟩ := Fields.property_mem_children_iff.mp hc
  obtain rfl := Option.some.inj (hproperties.symm.trans hproperties')
  have hd := ((Fields.isKeyed_iff properties).mp (Fields.isKeyed_of_mapping? hkeyed hproperties)).1
  have hget := Entries.get?_eq_some_of_mem hd hmem
  rw [Entries.get?_eq_some_of_mem hd hsub] at hget
  obtain rfl := Option.some.inj hget
  simp [Value.fields?] at hv

/-- Items that are no node have no result. -/
theorem get?_items_outlineAll_of_none (hitems : node.mapping? "items" = none)
    (ctx : Option Context) (start : Nat) :
    (outlineAll setting ctx start node.subtrees).get? .items = none := by
  rw [Entries.get?_eq_none_iff, keys_outlineAll, Fields.map_fst_subtrees]
  intro hstep
  obtain ⟨⟨_, sub⟩, hc, rfl⟩ := List.mem_map.mp hstep
  have hsome := Fields.items_mem_children_iff.mp hc
  rw [hitems] at hsome
  simp at hsome

/-- An array of tables under a property is taken out of its node, and nothing else is. -/
theorem outline_removed (owner : Context) (name : Scalar) (sub : Fields) (start : Nat) :
    (outline setting (some owner) (some (.property name)) start
        (Tree.ofFields sub)).removed = true ↔ sub.kind = .arrayOfTable := by
  cases htable : sub.isTable with
  | true =>
    rw [outline_of_isTable setting htable, Fields.kind_eq_table_iff.mpr htable]
    simp
  | false =>
    have hctx : contextIn setting.settings (some owner) (some (.property name)) sub =
        some (owner.child name.plain) := by
      simp [contextIn, htable, Step.key]
    rw [outline_ofFields, handUp, if_neg (by simp [htable]), hctx]
    by_cases hkind : sub.kind = .arrayOfTable
    · obtain ⟨items, place, -, -, htarget⟩ := exists_items_target setting hkind
        (some (owner.child name.plain)) start
      simp [many?, hkind, htarget]
    · simp [many?_of_kind hkind, hkind]

/-- **What the walk makes of the properties of a table** is what they are said to become. -/
theorem columnsOf_eq_foldl (hkeyed : node.isKeyed = true) {properties : Fields}
    (hproperties : node.mapping? "properties" = some properties) (owner : Context) (start : Nat) :
    columnsOf (setting.words : Setting Nat Unit) (some owner)
        (outlineAll setting (some owner) start node.subtrees) properties =
      properties.foldl (withColumnOf setting.settings
        (outlineAll setting (some owner) start node.subtrees)) [] := by
  refine List.foldl_ext _ _ _ fun columns e he => ?_
  obtain ⟨name, v⟩ := e
  cases hv : v.fields? with
  | none =>
    have hget := get?_outlineAll_of_verbatim setting hkeyed hproperties he hv
      (some owner) start
    simp [withProperty, withColumnOf, hget, hv]
  | some sub =>
    have hchild : (Step.property name, sub) ∈ node.children := by
      obtain rfl : v = .map sub := by
        cases v <;> simp_all [Value.fields?]
      exact Fields.property_mem_children_iff.mpr ⟨properties, hproperties, he⟩
    obtain ⟨start', hget, -⟩ := get?_outlineAll setting (Fields.nodup_steps hkeyed)
      hchild (some owner) start
    have hremoved := outline_removed setting owner name sub start'
    have htable := outline_table_isSome setting sub (some owner) (some (.property name)) start'
    rw [Fields.subtrees, withProperty, withColumnOf, hget]
    generalize outline setting (some owner) (some (.property name)) start' (Tree.ofFields sub) =
      result at hremoved htable
    -- the walk asks what has been handed up, and this says what kind of node the property is
    obtain ⟨schema, relations, target, removed⟩ := result
    cases hkind : sub.kind with
    | table =>
      rw [Fields.kind_eq_table_iff.mp hkind, Option.isSome_iff_exists] at htable
      obtain ⟨target, rfl⟩ := htable
      have hleft : removed = false := by simpa [hkind] using hremoved
      simp [hleft, hv, hkind, Setting.words]
    | arrayOfTable =>
      have hout : removed = true := by simpa [hkind] using hremoved
      simp [hout, hv, hkind]
    | embedded | arrayOfEmbedded | scalar =>
      have hno : sub.isTable = false := by
        rw [Bool.eq_false_iff, Ne, ← Fields.kind_eq_table_iff, hkind]
        exact NodeKind.noConfusion
      have hnone : target = none := by simpa [hno] using htable
      have hleft : removed = false := by simpa [hkind] using hremoved
      simp [hleft, hnone, hv, hkind]

/-! ### The table that a node becomes -/

/-- What the walk keeps of a node has the columns of the node under their key. -/
theorem entries?_keptOf (ctx : Option Context) (node : Fields)
    (results : Entries Step (Visit η)) :
    ((keptOf setting ctx node results).get? propertiesKey).bind Fragment.entries? =
      (node.mapping? "properties").map (columnsOf setting ctx results) := by
  have hitems : ∀ kept : Entries Scalar Fragment, ∀ schema : Fragment,
      (kept.put (.text "items") schema).get? propertiesKey = kept.get? propertiesKey := by
    intro kept schema
    rw [Entries.get?_put, if_neg (by decide)]
  -- without properties the entry under their key is a part of the source, and has no columns
  have hkept : (keptOf setting ctx node results).get? propertiesKey =
      match node.mapping? "properties" with
      | none => (withoutOverrides setting.settings node).get? propertiesKey
      | some properties => some (.map (columnsOf setting ctx results properties)) := by
    unfold keptOf
    cases node.mapping? "properties" <;> cases results.get? .items <;>
      simp [hitems, Entries.get?_put]
  rw [hkept]
  cases node.mapping? "properties" with
  | some properties => rfl
  | none =>
    rw [withoutOverrides, Entries.get?_mapValues, Option.bind_map]
    exact Option.bind_eq_none_iff.mpr fun _ _ => rfl

/-- **A table is registered with its own columns.** -/
theorem schema_outlineDraft (hkeyed : node.isKeyed = true) (start : Nat) :
    let ctx := some ((Tree.ofFields node).context setting.settings)
    (outlineDraft setting ctx node (outlineAll setting ctx start node.subtrees)).schema.get?
      propertiesKey = some (.map (ownColumns setting start node)) := by
  intro ctx
  have hown : ((node.mapping? "properties").map (columnsOf (setting.words : Setting Nat Unit) ctx
      (outlineAll setting ctx start node.subtrees))).getD [] =
      ((node.mapping? "properties").getD []).foldl (withColumnOf setting.settings
        (outlineAll setting ctx start node.subtrees)) [] := by
    cases hproperties : node.mapping? "properties" with
    | none => rfl
    | some properties => exact columnsOf_eq_foldl setting hkeyed hproperties _ start
  rw [outlineDraft, draftOf, Entries.get?_put, if_pos rfl, entries?_keptOf, ownColumns, hown]
  rfl

end NestedTables.Walk
