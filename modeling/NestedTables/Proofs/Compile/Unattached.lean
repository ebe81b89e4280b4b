import NestedTables.Proofs.Compile.Graph
import NestedTables.Proofs.Compile.Logged
import NestedTables.Proofs.Schema.Loose

/-!
# Relations that are not attached

A compilation reports an array of tables that becomes no relation. Which arrays these are is known
to the walk by the context on the way down; in the schema they are the loose ones
(`mem_unattached_iff`).

A table can lack a relation for other reasons: it is a property, but no table is around it, or it
stands as the items of a table. Of such a table nothing is reported (`compile_unattached`), so it
can be left alone without a word (`compile_unattached_silent`).
-/

namespace NestedTables

variable {η ε : Type}

namespace Walk

variable (setting : Setting η ε)

/-- A node has a context if it is a table or one is around it. -/
theorem isSome_contextIn (settings : Settings) (above : Option Context) (step : Option Step)
    (node : Fields) : (contextIn settings above step node).isSome = true ↔
      (above.isSome = true ∧ step.isSome = true) ∨ node.isTable = true := by
  by_cases htable : node.isTable = true
  · simp [contextIn, htable]
  · cases above <;> cases step <;> simp [contextIn, htable]

/-- An array of tables is loose itself if it becomes no relation. -/
theorem loose_nil_iff {above : Option Context} {step : Option Step} {node items : Fields}
    (hkind : node.kind = .arrayOfTable) (start : Nat) :
    node.Loose (above.isSome = true ∧ step.isSome = true) step [] items ↔
      node.mapping? "items" = some items ∧
        many? (contextIn setting.settings above step node) step node
          (outlineAll setting (contextIn setting.settings above step node) start
            node.subtrees) = none := by
  have hlast : (step.toList ++ []).getLast? = step := by cases step <;> rfl
  have hcontext := isSome_contextIn setting.settings above step node
  obtain ⟨items', place, -, -, htarget⟩ := exists_items_target setting hkind
    (contextIn setting.settings above step node) start
  rw [Fields.Loose, hlast, Fields.tableOn_nil, ← hcontext, Option.eq_none_iff_forall_ne_some]
  constructor
  · rintro ⟨array, hdown, -, hitems, hfree⟩
    obtain rfl := Option.some.inj hdown
    refine ⟨hitems, ?_⟩
    rintro ⟨k, owner, target⟩ hmany
    obtain ⟨-, -, hstep, hctx⟩ := many?_eq_some_iff.mp hmany
    exact hfree ⟨k, hstep⟩ (by rw [hctx, Option.isSome_some])
  · rintro ⟨hitems, hnone⟩
    refine ⟨node, rfl, hkind, hitems, ?_⟩
    rintro ⟨k, hstep⟩ hctx
    obtain ⟨owner, hctx⟩ := Option.isSome_iff_exists.mp hctx
    exact hnone _ (many?_eq_some_iff.mpr ⟨hkind, htarget, hstep, hctx⟩)

/-- **What a node tells of itself as an array** is that it is loose. -/
theorem mem_unattached_toldLast {above : Option Context} {step : Option Step} {at_ p : Pointer}
    {start : Nat} {node : Fields} {name : String} :
    (p, name) ∈ (toldLast setting (contextIn setting.settings above step node) step at_ node
        (outlineAll setting (contextIn setting.settings above step node) start
          node.subtrees)).filterMap Event.unattached? ↔
      ∃ items, node.Loose (above.isSome = true ∧ step.isSome = true) step [] items ∧ p = at_ ∧
        name = (items.names setting.settings).tableName := by
  by_cases hkind : node.kind = .arrayOfTable
  · have htable := (Fields.exists_items_of_kind hkind).1
    obtain ⟨items, place, hitems, -, htarget⟩ := exists_items_target setting hkind
      (contextIn setting.settings above step node) start
    simp only [loose_nil_iff setting hkind start, hitems, Option.some.injEq, and_assoc,
      exists_eq_left']
    rw [toldLast, if_neg (by simp [htable])]
    simp only [hkind, htarget]
    cases many? (contextIn setting.settings above step node) step node
        (outlineAll setting (contextIn setting.settings above step node) start node.subtrees) with
    | some m => simp
    | none => simp [Event.unattached?]
  · have hnone : (toldLast setting (contextIn setting.settings above step node) step at_ node
        (outlineAll setting (contextIn setting.settings above step node) start
          node.subtrees)).filterMap Event.unattached? = [] := by
      rw [toldLast]
      split
      · rfl
      · split
        · next h _ => exact absurd h hkind
        · rfl
    rw [hnone]
    refine iff_of_false List.not_mem_nil ?_
    rintro ⟨items, ⟨array, hdown, harray, -⟩, -⟩
    exact hkind (Option.some.inj hdown ▸ harray)

/-- **The arrays that a visit tells of** as not attached are the loose ones at and below the
node. -/
theorem mem_unattached_acts {node : Fields} (hkeyed : node.isKeyed = true)
    {above : Option Context} {step : Option Step} {at_ p : Pointer} {start : Nat} {name : String} :
    (p, name) ∈ (Act.told (acts setting above step at_ start (Tree.ofFields node))).filterMap
        Event.unattached? ↔
      ∃ way items, node.Loose (above.isSome = true ∧ step.isSome = true) step way items ∧
        p = at_ ++ Pointer.ofWay way ∧ name = (items.names setting.settings).tableName := by
  induction node using Fields.childInduction (Q := fun cs => (∀ c ∈ cs, c.2.isKeyed = true) →
      ∀ (ctx : Option Context) (at_ : Pointer) (start : Nat),
        (p, name) ∈ (Act.told (actsBelow setting ctx at_ start
          (cs.map fun c => (c.1, Tree.ofFields c.2)))).filterMap Event.unattached? ↔
        ∃ c ∈ cs, ∃ way items, c.2.Loose (ctx.isSome = true) (some c.1) way items ∧
          p = at_ ++ (c.1.path ++ Pointer.ofWay way) ∧
            name = (items.names setting.settings).tableName)
      generalizing above step at_ start with
  | hnil =>
    refine iff_of_false List.not_mem_nil ?_
    rintro ⟨c, hc, -⟩
    exact absurd hc List.not_mem_nil
  | hcons step' sub cs hsub hcs hkeyed ctx at_ start =>
    rw [List.forall_mem_cons] at hkeyed
    rw [List.map_cons, told_actsBelow_cons, List.filterMap_append, List.mem_append,
      hsub hkeyed.1, hcs hkeyed.2]
    simp only [List.mem_cons, exists_eq_or_imp, Option.isSome_some, and_true, List.append_assoc]
  | hnode node hbelow =>
    have hall := hbelow (fun c hc => Fields.isKeyed_of_mem_children hkeyed hc)
      (contextIn setting.settings above step node) at_ start
    rw [told_acts, List.filterMap_append, List.filterMap_append,
      Event.filterMap_notVisited fun _ => rfl, List.nil_append, List.mem_append,
      mem_unattached_toldLast, Fields.subtrees, hall]
    simp only [isSome_contextIn]
    constructor
    · rintro (⟨c, hc, way, items, hloose, rfl, rfl⟩ | ⟨items, hloose, rfl, rfl⟩)
      · refine ⟨c.1 :: way, items, ?_, by rw [Pointer.ofWay_cons], rfl⟩
        exact (Fields.loose_cons ((Fields.get?_children_iff hkeyed).mpr hc)).mpr hloose
      · exact ⟨[], items, hloose, (List.append_nil _).symm, rfl⟩
    · rintro ⟨way, items, hloose, rfl, rfl⟩
      cases way with
      | nil => exact Or.inr ⟨items, hloose, List.append_nil _, rfl⟩
      | cons st way =>
        -- a way that leads to an array begins with the step to a child
        obtain ⟨array, hdown, -⟩ := id hloose
        obtain ⟨sub, hsub, -⟩ := Option.bind_eq_some_iff.mp hdown
        refine Or.inl ⟨(st, sub), Entries.mem_of_get?_eq_some hsub, way, items, ?_, ?_, rfl⟩
        · exact (Fields.loose_cons hsub).mp hloose
        · rw [Pointer.ofWay_cons]

end Walk

variable {settings : Settings} {schema : Fields} {binder : Binder η ε}

/-- **The arrays that a compilation reports** are the loose ones of the schema. -/
theorem mem_unattached_iff (hset : settings.IsValid) (hkeyed : schema.isKeyed = true)
    {models : Entries String η}
    (hok : (compile binder settings (.map schema)).result = .ok models) {p : Pointer}
    {name : String} :
    (p, name) ∈ (compile binder settings (.map schema)).log.filterMap Event.unattached? ↔
      ∃ way items, schema.Loose False none way items ∧ p = Pointer.ofWay way ∧
        name = (items.names settings).tableName := by
  rw [filterMap_log hset hkeyed hok fun _ => Event.isNodal_of_unattached?, compileActs,
    Walk.mem_unattached_acts _ hkeyed]
  simp

/-- Whether a log says that the relation to the table at the end of a way is not attached: it has
the pointer of the node that the table is the items of, and the name of the table. -/
def Fields.ToldUnattached (settings : Settings) (schema : Fields) (log : List Event)
    (w : List Step) : Prop :=
  ∃ p c, p ++ Step.items.path = Pointer.ofWay w ∧ schema.down? w = some c ∧
    (p, (c.names settings).tableName) ∈ log.filterMap Event.unattached?

/-- The table at the end of a way is told to be unattached if it is the items of a loose array. -/
theorem Fields.toldUnattached_iff (hset : settings.IsValid) (hkeyed : schema.isKeyed = true)
    {models : Entries String η}
    (hok : (compile binder settings (.map schema)).result = .ok models) {w : List Step} :
    schema.ToldUnattached settings (compile binder settings (.map schema)).log w ↔
      ∃ v items, w = v ++ [.items] ∧ schema.Loose False none v items := by
  constructor
  · rintro ⟨p, c, hp, hdown, hmem⟩
    obtain ⟨way, items, hloose, rfl, -⟩ := (mem_unattached_iff hset hkeyed hok).mp hmem
    refine ⟨way, items, Pointer.ofWay_injective ?_, hloose⟩
    rw [← hp, Pointer.ofWay_append, Pointer.ofWay_singleton]
  · rintro ⟨v, items, rfl, hloose⟩
    obtain ⟨array, hdown, -, hitems, -⟩ := id hloose
    have hitemsDown : schema.down? (v ++ [.items]) = some items := by
      rw [down?_append_singleton, hdown]
      exact (get?_children_iff (isKeyed_of_down? hkeyed hdown)).mpr
        (items_mem_children_iff.mpr hitems)
    refine ⟨Pointer.ofWay v, items, by rw [Pointer.ofWay_append, Pointer.ofWay_singleton],
      hitemsDown, ?_⟩
    exact (mem_unattached_iff hset hkeyed hok).mpr ⟨v, items, hloose, rfl, rfl⟩

/-- A relation leads to a table that is both enclosed by another one and reached from it. -/
theorem GivesOut.not_reached {handles : List η} (hgives : GivesOut binder settings schema handles)
    (hset : settings.IsValid) (hkeyed : schema.isKeyed = true) {models : Entries String η}
    (hok : (compile binder settings (.map schema)).result = .ok models) {w : List Step} {c : Fields}
    {j : Nat} {handle : η} (hdown : schema.down? w = some c) (htable : c.isTable = true)
    (hplaced : schema.PlacedAt w j) (hhandle : handles[j]? = some handle)
    (hlone : some handle ∉ relationTargets (compile binder settings (.map schema)).tables) :
    ¬ ((∃ u, schema.Encloses u w) ∧ schema.IsReached w) := by
  rintro ⟨⟨u, hencloses⟩, hreached⟩
  obtain ⟨j', i, handle', d, e, hplaced', -, -, hhandle', hd, he, htarget, -⟩ :=
    hgives.exists_relation_to hset hkeyed hok hdown htable hencloses hreached
  have hlt : j < ((Tree.ofFields schema).tables.map (·.1)).length :=
    (List.getElem?_eq_some_iff.mp hplaced).1
  obtain rfl : j = j' := (List.getElem?_inj hlt (Tree.nodup_pointers hkeyed)).mp
    (hplaced.trans hplaced'.symm)
  obtain rfl := Option.some.inj (hhandle.symm.trans hhandle')
  exact hlone (mem_relationTargets.mpr ⟨i, d, hd, e, he, htarget⟩)

/-- **Tables that no relation leads to.** Of such a table a compilation with a result tells, to
those who look into it, that its relation is not attached, if the table stands as the items of a
node that is no table; of any other one it tells nothing. And whenever it tells so of a table, the
table is not both enclosed by another one and reached from it. -/
theorem compile_unattached (hset : settings.IsValid) (hkeyed : schema.isKeyed = true)
    (binder : Binder η ε) {models : Entries String η}
    (hok : (compile binder settings (.map schema)).result = .ok models) :
    let outcome := compile binder settings (.map schema)
    (∀ e ∈ outcome.log, e.unattached?.isSome = true →
      e.level = .debug ∧ e.channel = "relschema.compiler") ∧
    (∀ p name, (p, name) ∈ outcome.log.filterMap Event.unattached? → ∃ v c,
      p = Pointer.ofWay v ∧ schema.down? (v ++ [.items]) = some c ∧ c.isTable = true ∧
        name = (c.names settings).tableName ∧
          ¬ ((∃ u, schema.Encloses u (v ++ [.items])) ∧ schema.IsReached (v ++ [.items]))) ∧
    ∃ handles, GivesOut binder settings schema handles ∧ ∀ (w : List Step) (c : Fields) (j : Nat)
      (handle : η), schema.down? w = some c → c.isTable = true → schema.PlacedAt w j →
        handles[j]? = some handle → some handle ∉ relationTargets outcome.tables →
          (schema.ToldUnattached settings outcome.log w ↔ ∃ v array, w = v ++ [.items] ∧
            schema.down? v = some array ∧ array.isTable = false) := by
  intro outcome
  refine ⟨fun e _ he => Event.level_of_isNodal (Event.isNodal_of_unattached? he),
    fun p name hmem => ?_, ?_⟩
  · obtain ⟨v, items, hloose, rfl, rfl⟩ := (mem_unattached_iff hset hkeyed hok).mp hmem
    obtain ⟨array, hdown, hkind, hitems, hno⟩ := Fields.loose_root_iff.mp hloose
    obtain ⟨-, items', hitems', hitemsTable⟩ := Fields.exists_items_of_kind hkind
    obtain rfl := Option.some.inj (hitems.symm.trans hitems')
    refine ⟨v, items, rfl, ?_, hitemsTable, rfl, hno⟩
    rw [Fields.down?_append_singleton, hdown]
    exact (Fields.get?_children_iff (Fields.isKeyed_of_down? hkeyed hdown)).mpr
      (Fields.items_mem_children_iff.mpr hitems)
  · obtain ⟨handles, hgives⟩ := exists_givesOut hset hkeyed hok
    refine ⟨handles, hgives, fun w c j handle hdown htable hplaced hhandle hlone => ?_⟩
    have hno := hgives.not_reached hset hkeyed hok hdown htable hplaced hhandle hlone
    rw [Fields.toldUnattached_iff hset hkeyed hok]
    constructor
    · rintro ⟨v, items, rfl, array, harray, hkind, -⟩
      exact ⟨v, array, rfl, harray, (Fields.exists_items_of_kind hkind).1⟩
    · rintro ⟨v, array, rfl, harray, harrayTable⟩
      rw [Fields.down?_append_singleton, harray, Option.bind_some] at hdown
      have hitems := Fields.items_mem_children_iff.mp (Entries.mem_of_get?_eq_some hdown)
      exact ⟨v, c, rfl, Fields.loose_root_iff.mpr ⟨array, harray,
        Fields.kind_eq_arrayOfTable harrayTable hitems htable, hitems, hno⟩⟩

/-- A bookshop that is no table, with a founder and with books. -/
def bookshopSchema : Fields :=
  [(.text "properties", .object
    [("founder", .object [("$id", .text "person")]),
      ("books", .object
        [("type", .text "array"), ("items", .object [("$id", .text "book")])])])]

theorem result_bookshopSchema :
    (compile (Binder.counting : Binder Nat Empty) {} (.map bookshopSchema)).result =
      .ok [("person", 0), ("book", 1)] := by
  rfl

/-- **A relation can be dropped without a word**: no relation leads to the founder of the bookshop,
and nothing is told of it. -/
theorem compile_unattached_silent :
    let outcome := compile (Binder.counting : Binder Nat Empty) {} (.map bookshopSchema)
    outcome.result = .ok [("person", 0), ("book", 1)] ∧ relationTargets outcome.tables = [] ∧
      ¬ ∀ w c, w ≠ [] → bookshopSchema.down? w = some c → c.isTable = true →
        ∃ p, (p, (c.names {}).tableName) ∈ outcome.log.filterMap Event.unattached? := by
  intro outcome
  refine ⟨result_bookshopSchema, rfl, fun h => ?_⟩
  have hlog : outcome.log.filterMap Event.unattached? =
      [([.text "properties", .text "books"], "book")] := by
    rfl
  obtain ⟨p, hp⟩ := h [.property (.text "founder")] [(.text "$id", .text "person")] (by decide)
    rfl (by decide)
  rw [hlog, List.mem_singleton] at hp
  exact absurd (Prod.mk.inj hp).2 (by decide)

/-- What is told of the books of the bookshop, and what is not told of its founder. -/
theorem compile_unattached_bookshop :
    ({} : Settings).IsValid ∧ bookshopSchema.isKeyed = true ∧
      let outcome := compile (Binder.counting : Binder Nat Empty) {} (.map bookshopSchema)
      outcome.result = .ok [("person", 0), ("book", 1)] ∧
      outcome.log.filterMap Event.unattached? =
        [([.text "properties", .text "books"], "book")] ∧
      ∃ handles, GivesOut (Binder.counting : Binder Nat Empty) {} bookshopSchema handles ∧
        ∀ (w : List Step) (c : Fields) (j handle : Nat), bookshopSchema.down? w = some c →
          c.isTable = true → bookshopSchema.PlacedAt w j → handles[j]? = some handle →
            some handle ∉ relationTargets outcome.tables →
              (bookshopSchema.ToldUnattached {} outcome.log w ↔ ∃ v array, w = v ++ [.items] ∧
                bookshopSchema.down? v = some array ∧ array.isTable = false) := by
  have hkeyed : bookshopSchema.isKeyed = true := by decide
  exact ⟨Settings.isValid_default, hkeyed, result_bookshopSchema, rfl,
    (compile_unattached Settings.isValid_default hkeyed Binder.counting
      result_bookshopSchema).2.2⟩

end NestedTables
