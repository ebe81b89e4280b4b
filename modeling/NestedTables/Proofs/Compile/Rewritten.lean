import NestedTables.Proofs.Compile.OwnColumns
import NestedTables.Proofs.Compile.Rewriting

/-!
# The walk rewrites a node as it is said to

What a walk makes of a node that belongs to a table is a fragment, in which a table that stays
where it is is only referred to. When the schemas of the tables are put in, it is what the
rewriting makes of the node, provided that both mean the same by such a table
(`Walk.rewrites`). This is shown for all nodes below a table at once, by induction over
the tree; the place of a table in the tree is what goes along with its pointer.
-/

namespace NestedTables

variable {η ε : Type}

/-- Putting in the schemas changes the values of a mapping one by one. -/
theorem Fragment.resolveEntries_eq_mapValues (schemas : List Fields)
    (es : Entries Scalar Fragment) :
    resolveEntries schemas es = es.mapValues (resolve schemas) := by
  induction es with
  | nil => rfl
  | cons e es ih =>
    obtain ⟨k, f⟩ := e
    rw [resolveEntries, ih, Entries.mapValues_cons]

/-- Whether a rewriting has the schemas by pointer that are there by place. -/
def Rewriting.Agrees (w : Rewriting) (schemas : List Fields)
    (placed : List ((Pointer × Tree) × Nat)) : Prop :=
  ∀ t ∈ placed, w.inline t.1.1 = schemas.getD t.2 []

theorem Rewriting.Agrees.mono {w : Rewriting} {schemas : List Fields}
    {placed placed' : List ((Pointer × Tree) × Nat)} (h : w.Agrees schemas placed)
    (hsub : placed' ⊆ placed) : w.Agrees schemas placed' :=
  fun t ht => h t (hsub ht)

namespace Walk

variable {setting : Setting η ε} {w : Rewriting} {schemas : List Fields} {node : Fields}

/-! ### The properties of a node -/

/-- **The properties of a node** become what the rewriting makes of them. -/
theorem resolve_foldl_withColumnOf {at_ : Pointer} {results : Entries Step (Visit Nat)}
    {properties : Fields}
    (h : ∀ e ∈ properties, ∀ sub : Fields, e.2 = .map sub → sub.kind ≠ .table →
      sub.kind ≠ .arrayOfTable → ∃ result, results.get? (.property e.1) = some result ∧
        result.schema.resolve schemas = w.value (at_ ++ (Step.property e.1).path) e.2) :
    (properties.foldl (withColumnOf w.settings results) []).mapValues
        (Fragment.resolve schemas) =
      Entries.ofPairs (w.columns at_ properties) := by
  have hbecomes : ∀ e ∈ properties, BecomesColumn schemas results e.1 e.2
      (w.value (at_ ++ (Step.property e.1).path) e.2) :=
    fun e he => ⟨w.value_of_fields?_eq_none _, h e he⟩
  rw [Rewriting.columns_eq_flatMap]
  exact mapValues_foldl_withColumnOf hbecomes

/-! ### A node -/

/-- A table that stays where it is refers to its own schema. -/
theorem resolve_outline_of_isTable (htable : node.isTable = true) (ctx : Option Context)
    (step : Option Step) {start : Nat} {at_ : Pointer}
    (hagrees : w.Agrees schemas ((Tree.tablesFrom at_ (Tree.ofFields node)).zipIdx start)) :
    (outline setting ctx step start (Tree.ofFields node)).schema.resolve schemas =
      .map (w.inline at_) := by
  have hplace := hagrees ((at_, Tree.ofFields node), start + Tree.countBelow node.subtrees) (by
    rw [Tree.tablesFrom_ofFields, if_pos htable, List.zipIdx_append, Tree.length_tablesBelow]
    exact List.mem_append_right _ (List.mem_singleton.mpr rfl))
  rw [outline_of_isTable setting htable, Fragment.resolve, hplace]

/-- What is kept of a node, whatever its children have become. -/
theorem resolve_withoutOverrides (hw : w.settings = setting.settings) :
    (withoutOverrides setting.settings node).mapValues (Fragment.resolve schemas) =
      node.filter fun e => !w.owns e.1 := by
  simp only [withoutOverrides, Entries.mapValues, List.map_map, Function.comp_def, Fragment.resolve]
  refine (List.map_id _).trans (List.filter_congr fun e _ => ?_)
  obtain ⟨k, v⟩ := e
  cases k <;> simp [Rewriting.owns, hw]

/-- A node becomes what the rewriting makes of it, if its properties and its items do. -/
theorem resolve_keptOf_of_children (hw : w.settings = setting.settings)
    (hproperties : w.settings.owns "properties" = false)
    (hitems : w.settings.owns "items" = false) (hd : Entries.Distinct node)
    {ctx : Option Context} {results : Entries Step (Visit Nat)} {at_ : Pointer}
    (hcolumns : ∀ properties, node.mapping? "properties" = some properties →
      (columnsOf (setting.words : Setting Nat Unit) ctx results properties).mapValues
        (Fragment.resolve schemas) = Entries.ofPairs (w.columns at_ properties))
    (hitem : ((results.get? .items).map fun result => result.schema.resolve schemas) =
      (node.mapping? "items").map fun items =>
        if items.isTable then .map (w.inline (at_ ++ Step.items.path))
        else w.value (at_ ++ Step.items.path) (.map items)) :
    Fragment.resolveEntries schemas (keptOf (setting.words : Setting Nat Unit) ctx node results) =
      w.entries at_ node := by
  have hkept : (withoutOverrides setting.settings node).mapValues
      (Fragment.resolve schemas) = node.filter fun e => !w.owns e.1 :=
    resolve_withoutOverrides hw
  -- the node before its items are changed
  obtain ⟨inner, hinner, hkeptOf⟩ : ∃ inner : Entries Scalar Fragment,
      inner.mapValues (Fragment.resolve schemas) =
          Fields.change "properties" (fun ps => .map (Entries.ofPairs (w.columns at_ ps)))
            (node.filter fun e => !w.owns e.1) ∧
        keptOf (setting.words : Setting Nat Unit) ctx node results =
          (results.get? .items).elim inner fun result =>
            inner.put (.text "items") result.schema := by
    rw [Fields.change, w.mapping?_filter_owns hproperties, keptOf]
    cases hmap : node.mapping? "properties" with
    | none =>
      refine ⟨_, hkept, ?_⟩
      cases results.get? .items <;> rfl
    | some properties =>
      refine ⟨(withoutOverrides setting.settings node).put propertiesKey
        (.map (columnsOf (setting.words : Setting Nat Unit) ctx results properties)), ?_, ?_⟩
      · simp only
        rw [Entries.mapValues_put, hkept, Fragment.resolve, Fragment.resolveEntries_eq_mapValues,
          hcolumns properties hmap]
        rfl
      · cases results.get? .items <;> rfl
  rw [Fragment.resolveEntries_eq_mapValues, Rewriting.entries_eq_change _ _ hd, hkeptOf,
    Fields.change, Fields.mapping?_change_of_ne (by decide), w.mapping?_filter_owns hitems, ← hinner]
  cases hget : results.get? .items with
  | none =>
    rw [hget, Option.map_none, eq_comm, Option.map_eq_none_iff] at hitem
    rw [hitem]
    rfl
  | some result =>
    rw [hget, Option.map_some, eq_comm, Option.map_eq_some_iff] at hitem
    obtain ⟨items, hitems, hresult⟩ := hitem
    rw [hitems, Option.elim_some, Entries.mapValues_put]
    simp only
    rw [hresult]

/-! ### The recursion -/

variable (setting w schemas) in
/-- Whether what the walk makes of a node inside a table is what the rewriting makes of it. -/
def Rewrites (node : Fields) : Prop :=
  ∀ (owner : Context) (start : Nat) (at_ : Pointer),
    w.Agrees schemas ((Tree.tablesBelow at_ node.subtrees).zipIdx start) →
      Fragment.resolveEntries schemas (keptOf (setting.words : Setting Nat Unit) (some owner) node
        (outlineAll setting (some owner) start node.subtrees)) = w.entries at_ node

section Children

variable (owner : Context) {start : Nat} {at_ : Pointer} (hkeyed : node.isKeyed = true)
  (hagrees : w.Agrees schemas ((Tree.tablesBelow at_ node.subtrees).zipIdx start))
include hkeyed hagrees

/-- A child is a table, or it is rewritten in turn. -/
theorem resolve_outline {c : Step × Fields} (hc : c ∈ node.children)
    (hsub : Rewrites setting w schemas c.2) :
    ∃ result, (outlineAll setting (some owner) start node.subtrees).get? c.1 = some result ∧
      result.schema.resolve schemas =
        if c.2.isTable then .map (w.inline (at_ ++ c.1.path))
        else w.value (at_ ++ c.1.path) (.map c.2) := by
  obtain ⟨start', hget, hplaced⟩ := get?_outlineAll setting (Fields.nodup_steps hkeyed) hc
    (some owner) start
  have hbelow := hagrees.mono (hplaced at_)
  refine ⟨_, hget, ?_⟩
  cases htable : c.2.isTable with
  | true => exact resolve_outline_of_isTable htable _ _ hbelow
  | false =>
    have hctx : contextIn setting.settings (some owner) (some c.1) c.2 =
        some (owner.child c.1.key.plain) := by
      simp [contextIn, htable]
    have hentries := hsub (owner.child c.1.key.plain) start' (at_ ++ c.1.path) (by
      refine hbelow.mono ?_
      rw [Tree.tablesFrom_ofFields, List.zipIdx_append]
      exact List.subset_append_left _ _)
    rw [outline_ofFields, handUp, if_neg (by simp [htable]), hctx, Fragment.resolve, hentries,
      if_neg (by simp), Rewriting.value]

variable (hsub : ∀ c ∈ node.children, Rewrites setting w schemas c.2)
include hsub

/-- **The properties of a node inside a table.** -/
theorem resolve_columnsOf (hw : w.settings = setting.settings) {properties : Fields}
    (hproperties : node.mapping? "properties" = some properties) :
    (columnsOf (setting.words : Setting Nat Unit) (some owner)
      (outlineAll setting (some owner) start node.subtrees) properties).mapValues
        (Fragment.resolve schemas) = Entries.ofPairs (w.columns at_ properties) := by
  rw [columnsOf_eq_foldl setting hkeyed hproperties, ← hw]
  refine resolve_foldl_withColumnOf fun e he sub hv hkind _ => ?_
  obtain ⟨name, v⟩ := e
  obtain rfl : v = .map sub := hv
  have hc : (Step.property name, sub) ∈ node.children :=
    Fields.property_mem_children_iff.mpr ⟨properties, hproperties, he⟩
  obtain ⟨result, hget, hresult⟩ := resolve_outline owner hkeyed hagrees hc (hsub _ hc)
  refine ⟨result, hget, ?_⟩
  rw [hresult, if_neg (mt Fields.kind_eq_table_iff.mpr hkind)]

/-- The items of a node inside a table. -/
theorem resolve_items :
    (((outlineAll setting (some owner) start node.subtrees).get? .items).map fun result =>
        result.schema.resolve schemas) =
      (node.mapping? "items").map fun items =>
        if items.isTable then .map (w.inline (at_ ++ Step.items.path))
        else w.value (at_ ++ Step.items.path) (.map items) := by
  cases hitems : node.mapping? "items" with
  | some items =>
    have hc : (Step.items, items) ∈ node.children := Fields.items_mem_children_iff.mpr hitems
    obtain ⟨result, hget, hresult⟩ := resolve_outline owner hkeyed hagrees hc (hsub _ hc)
    rw [hget, Option.map_some, Option.map_some, hresult]
  | none =>
    rw [get?_items_outlineAll_of_none setting hitems, Option.map_none, Option.map_none]

end Children

/-- **What the walk makes of a node inside a table** is what the rewriting makes of it. -/
theorem rewrites (hw : w.settings = setting.settings)
    (hproperties : w.settings.owns "properties" = false)
    (hitems : w.settings.owns "items" = false) (hkeyed : node.isKeyed = true) :
    Rewrites setting w schemas node := by
  induction node using Fields.walkInduction with
  | h node ih =>
    have hsub : ∀ c ∈ node.children, Rewrites setting w schemas c.2 :=
      fun c hc => ih c hc (Fields.isKeyed_of_mem_children hkeyed hc)
    intro owner start at_ hagrees
    exact resolve_keptOf_of_children hw hproperties hitems ((Fields.isKeyed_iff node).mp hkeyed).1
      (fun _ => resolve_columnsOf owner hkeyed hagrees hsub hw) (resolve_items owner hkeyed hagrees hsub)

/-- **The columns that a table has from its own node.** -/
theorem resolve_ownColumns (hw : w.settings = setting.settings)
    (hproperties : w.settings.owns "properties" = false)
    (hitems : w.settings.owns "items" = false) (hkeyed : node.isKeyed = true) {start : Nat}
    {at_ : Pointer}
    (hagrees : w.Agrees schemas ((Tree.tablesBelow at_ node.subtrees).zipIdx start)) :
    (ownColumns setting start node).mapValues (Fragment.resolve schemas) =
      w.ownColumns at_ setting.leaves node := by
  rw [ownColumns, Entries.mapValues_filter, Rewriting.ownColumns]
  cases hmap : node.mapping? "properties" with
  | none =>
    simp [Entries.mapValues, Entries.ofPairs, Rewriting.columns]
  | some properties =>
    have hsub : ∀ c ∈ node.children, Rewrites setting w schemas c.2 := fun c hc =>
      rewrites hw hproperties hitems (Fields.isKeyed_of_mem_children hkeyed hc)
    have hcolumns := resolve_columnsOf ((Tree.ofFields node).context setting.settings) hkeyed
      hagrees hsub hw hmap
    rw [columnsOf_eq_foldl setting hkeyed hmap] at hcolumns
    rw [Option.getD_some, hcolumns]

end Walk

end NestedTables
