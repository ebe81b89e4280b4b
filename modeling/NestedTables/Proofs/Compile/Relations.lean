import NestedTables.Proofs.Compile.Compilation
import NestedTables.Proofs.Compile.Descriptors

/-!
# The relations of a compiled schema

The relations of a table are the ones that the schema declares. When a compilation gives a
result, the descriptor of every table has exactly one relation for each site of the table, under
the name of the site, and `Site.relation` says which one it is (`compile_relations`).

The walk finds them in an order of its own; what is said of them does not depend on it.
-/

namespace NestedTables

variable {η ε : Type}

namespace Walk

variable (setting : Setting η ε)

/-- Whether a table is registered under its names, with a relation for each of its sites. -/
structure Registers (t : Pointer × Tree) (r : Pointer × Draft Nat) : Prop where
  pointer : r.1 = t.1
  modelName : r.2.modelName = (t.2.fields.names setting.settings).modelName
  tableName : r.2.tableName = (t.2.fields.names setting.settings).tableName
  idColumn : r.2.idColumn = (t.2.fields.names setting.settings).idColumn
  relations : (r.2.relations.mapValues Relation.withoutTarget : Entries String (Relation Unit)).Perm
    (t.2.sites.map fun s => (s.name, s.relation setting (t.2.context setting.settings)))

variable {setting} {node : Fields}

/-- The table that a node becomes. -/
theorem registers_outlineDraft (hkeyed : node.isKeyed = true) (at_ : Pointer) (start : Nat) :
    let ctx := some ((Tree.ofFields node).context setting.settings)
    Registers setting (at_, Tree.ofFields node)
      (at_, outlineDraft setting ctx node (outlineAll setting ctx start node.subtrees)) where
  pointer := rfl
  modelName := rfl
  tableName := rfl
  idColumn := rfl
  relations := by
    have hperm := (gathered_perm setting hkeyed start
      ((Tree.ofFields node).context setting.settings) []).map fun e => (e.1.plain, e.2)
    have hsites : (siteRelations setting ((Tree.ofFields node).context setting.settings)
        (Tree.sitesOf (Tree.regionFrom [] (Tree.ofFields node))) :
          Entries Scalar (Relation Unit)).map (fun e => (e.1.plain, e.2)) =
        (Tree.ofFields node).sites.map fun s =>
          (s.name, s.relation setting ((Tree.ofFields node).context setting.settings)) := by
      simp [siteRelations, Tree.sites, Tree.region, Scalar.plain]
    rw [hsites] at hperm
    refine List.Perm.trans (List.Perm.of_eq ?_) hperm
    simp [outlineDraft, draftOf, textKeys, bare, Entries.mapValues]

variable (setting) in
/-- **The acts of a walk register every table** under its names, with a relation for each of its
sites. -/
theorem registers_acts (hkeyed : node.isKeyed = true) (above : Option Context)
    (step : Option Step) (at_ : Pointer) (start : Nat) :
    List.Forall₂ (Registers setting) (Tree.tablesFrom at_ (Tree.ofFields node))
      (Act.registered (acts setting above step at_ start (Tree.ofFields node))) := by
  have hplaced := forall₂_registered_acts (R := fun t r => Registers setting t.1 r)
    (fun _ at_ start hkeyed _ => registers_outlineDraft hkeyed at_ start) hkeyed above step at_
    start
  rw [← List.zipIdx_map_fst start (Tree.tablesFrom at_ (Tree.ofFields node)),
    List.forall₂_map_left_iff]
  exact hplaced

end Walk

/-- Whether a descriptor describes a table: it has the names of the table, and exactly one
relation for each site, which is the one that the schema declares. -/
structure Descriptor.Describes (setting : Walk.Setting η ε) (table : Tree) (d : Descriptor η) :
    Prop where
  modelName : d.modelName = (table.fields.names setting.settings).modelName
  tableName : d.tableName = (table.fields.names setting.settings).tableName
  idColumn : d.idColumn = (table.fields.names setting.settings).idColumn
  distinct : Entries.Distinct d.relations
  relations : (d.relations.mapValues Relation.withoutTarget : Entries String (Relation Unit)).Perm
    (table.sites.map fun s => (s.name, s.relation setting (table.context setting.settings)))

variable {settings : Settings} {schema : Fields}

/-- A registered table has the names and the relations that it was registered with. -/
theorem Stage.Built.mapValues_relations {settings : Settings} {done : List Act} {handles : List η}
    {d : Draft Nat} {built : Draft η} (h : Stage.Built settings done handles d built) :
    built.modelName = d.modelName ∧ built.tableName = d.tableName ∧
      built.idColumn = d.idColumn ∧
        (built.relations.mapValues Relation.withoutTarget : Entries String (Relation Unit)) =
          d.relations.mapValues Relation.withoutTarget := by
  obtain ⟨earlier, -, rfl⟩ := h
  refine ⟨by simp, by simp, by simp, ?_⟩
  simp [Draft.withHandles, Entries.mapValues, Relation.withHandles, Relation.withoutTarget]

theorem describes_of_registers {setting : Walk.Setting η ε} {t : Pointer × Tree}
    {r : Pointer × Draft Nat} {built : Draft η} {done : List Act} {handles : List η}
    (hr : Walk.Registers setting t r) (hnames : t.2.siteNames.Nodup)
    (hbuilt : Stage.Built setting.settings done handles r.2 built) (columns : Fields) :
    (built.describe columns).Describes setting t.2 := by
  obtain ⟨hmodel, htable, hid, hrelations⟩ := hbuilt.mapValues_relations
  have hperm : (built.relations.mapValues Relation.withoutTarget :
      Entries String (Relation Unit)).Perm _ := hrelations ▸ hr.relations
  refine ⟨hmodel.trans hr.modelName, htable.trans hr.tableName, hid.trans hr.idColumn, ?_, hperm⟩
  have hkeys := hperm.map Prod.fst
  have hnodup : (t.2.sites.map fun s => s.name).Nodup := by
    rw [Tree.siteNames] at hnames
    exact List.Nodup.of_map Scalar.text (by simpa [Function.comp_def] using hnames)
  rw [List.map_map] at hkeys
  have hsame : (built.relations.mapValues Relation.withoutTarget :
      Entries String (Relation Unit)).map Prod.fst = Entries.keys built.relations :=
    Entries.keys_mapValues _ _
  rw [hsame] at hkeys
  exact hkeys.nodup_iff.mpr hnodup

/-- **The relations of a compiled schema are those that it declares**: in the order of the
tables, each below the tables inside it, every descriptor has exactly one relation for each
site of its table, under the name of the site. -/
theorem compile_relations (hset : settings.IsValid) (hkeyed : schema.isKeyed = true)
    (binder : Binder η ε) {models : Entries String η}
    (hok : (compile binder settings (.map schema)).result = .ok models) :
    List.Forall₂ (fun t d => Descriptor.Describes ⟨settings, binder⟩ t.2 d)
      (Tree.ofFields schema).tables (compile binder settings (.map schema)).tables := by
  have hends := compile_ends binder hset hkeyed (isValid_of_result_eq_ok binder hok)
  generalize compile binder settings (.map schema) = outcome at hends hok
  cases hends with
  | refused | collided => simp at hok
  | @finished s h hnames =>
    have hregisters := Walk.registers_acts (⟨settings, binder⟩ : Walk.Setting η ε)
      hkeyed none none [] 0
    have hreplays := h.replays (Stage.replays_start settings (checkLog settings schema))
    rw [List.nil_append] at hreplays
    -- no name is there twice, so nothing was lost when the names were read as texts
    have hclear : List.Forall₂
        (fun t r => t.2.siteNames.Nodup ∧ Walk.Registers ⟨settings, binder⟩ t r)
        (Tree.ofFields schema).tables (Act.registered (compileActs binder settings schema)) :=
      (List.forall₂_and_left _ _).mpr ⟨hnames, hregisters⟩
    have hbuilt : List.Forall₂ (fun t (b : Draft η) => ∀ columns,
        (b.describe columns).Describes ⟨settings, binder⟩ t.2)
        (Tree.ofFields schema).tables s.registry.drafts :=
      forall₂_comp (fun t r b hr hb columns => describes_of_registers hr.2 hr.1 hb columns)
        hclear hreplays.drafts
    refine forall₂_comp ?_ hbuilt s.registry.forall₂_descriptors
    rintro t b descriptor hb ⟨schema, rfl⟩
    exact hb _

/-- An order with a customer, an address inside an embedded object, and an array of lines that
have products. -/
def orderSchema : Fields :=
  [(.text "$id", .text "order"),
    (.text "properties", .object
      [("customer", .object [("$id", .text "customer")]),
        ("shipping", .object
          [("properties", .object [("address", .object [("$id", .text "address")])])]),
        ("lines", .object
          [("type", .text "array"),
            ("items", .object
              [("$id", .text "line"),
                ("properties", .object [("product", .object [("$id", .text "product")])])])])])]

example : (Tree.ofFields orderSchema).sites.map (fun s => (s.way, s.name)) =
    [([], "customer"), ([], "lines"), ([.property (.text "shipping")], "address")] := by
  decide

/-- The order compiles, and its tables have the relations that it declares. -/
theorem compile_relations_order :
    ({} : Settings).IsValid ∧ orderSchema.isKeyed = true ∧
      (compile (Binder.counting : Binder Nat Empty) {} (.map orderSchema)).result =
        .ok [("customer", 0), ("address", 1), ("product", 2), ("line", 3), ("order", 4)] ∧
      List.Forall₂
        (fun t d => Descriptor.Describes ⟨{}, (Binder.counting : Binder Nat Empty)⟩ t.2 d)
        (Tree.ofFields orderSchema).tables
        (compile (Binder.counting : Binder Nat Empty) {} (.map orderSchema)).tables := by
  have hkeyed : orderSchema.isKeyed = true := by decide
  have hok : (compile (Binder.counting : Binder Nat Empty) {} (.map orderSchema)).result =
      .ok [("customer", 0), ("address", 1), ("product", 2), ("line", 3), ("order", 4)] := by
    rfl
  exact ⟨Settings.isValid_default, hkeyed, hok,
    compile_relations Settings.isValid_default hkeyed Binder.counting hok⟩

end NestedTables
