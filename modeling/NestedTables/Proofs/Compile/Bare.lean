import NestedTables.Proofs.Compile.Corresponds
import NestedTables.Proofs.Compile.Schemas

/-!
# Registered schemas have no overrides

A node is *bare* when it is keyed and no node that is visited from it has an override key. The schema
of every registered table is bare, at any depth (`bare_schema`): a node loses its override keys where
it is rewritten, a foreign key that takes the place of a table is bare if the settings say so, and a
table that stays where it is has the schema of its own descriptor.

The schema of a table may contain those of the tables inside it, so the induction is over the nodes
that are visited from a table at any depth (`Fields.walkedInduction`), and not over its children only.
-/

namespace NestedTables

variable {η ε : Type} {settings : Settings}

/-! ### Nodes at any depth -/

/-- **Induction over the nodes below a node, at any depth.** -/
theorem Fields.walkedInduction {P : Fields → Prop}
    (h : ∀ node : Fields, (∀ c ∈ node.children, ∀ n, c.2.Walked n → P n) → P node)
    (node : Fields) : P node := by
  suffices hall : ∀ node n : Fields, node.Walked n → P n from hall node node (.self node)
  intro node
  induction node using Fields.walkInduction with
  | h node ih =>
    intro n hn
    rcases Fields.walked_iff.mp hn with rfl | ⟨c, hc, hwalked⟩
    · exact h n ih
    · exact ih c hc n hwalked

/-- A mapping under a key is one of the entries. -/
theorem Fields.mem_of_mapping? {node sub : Fields} {key : String}
    (h : node.mapping? key = some sub) : (Scalar.text key, Value.map sub) ∈ node := by
  obtain ⟨v, hv, hfields⟩ := Option.bind_eq_some_iff.mp h
  have hmap : v = .map sub := by
    cases v <;> simp [Value.fields?] at hfields
    rw [hfields]
  exact hmap ▸ Entries.mem_of_get?_eq_some hv

theorem Fields.mapping?_of_mem {node sub : Fields} (hd : Entries.Distinct node) {key : String}
    (h : (Scalar.text key, Value.map sub) ∈ node) : node.mapping? key = some sub := by
  have hget : node.value? key = some (.map sub) := Entries.get?_eq_some_of_mem hd h
  rw [mapping?, hget]
  rfl

/-! ### Bare nodes -/

/-- Whether a node is keyed, and no node that is visited from it has an override key. -/
structure Fields.Bare (settings : Settings) (node : Fields) : Prop where
  isKeyed : node.isKeyed = true
  keeps : ∀ n, node.Walked n → ∀ e ∈ n, settings.keeps e.1 = true

/-- Whether a value is bare if it is a node. -/
def Value.Bare (settings : Settings) (v : Value) : Prop :=
  ∀ node : Fields, v = .map node → node.Bare settings

/-- Whether columns have different texts for names, and are bare. -/
structure Fields.BareColumns (settings : Settings) (columns : Fields) : Prop where
  distinct : Entries.Distinct columns
  texts : ∀ e ∈ columns, e.1.isText = true
  bare : ∀ e ∈ columns, e.2.Bare settings

theorem Value.Bare.isKeyed {v : Value} (h : v.Bare settings) : v.isKeyed = true := by
  cases v with
  | map node => exact (h node rfl).isKeyed
  | _ => rfl

theorem Fields.BareColumns.isKeyed {columns : Fields} (h : columns.BareColumns settings) :
    columns.isKeyed = true :=
  (isKeyed_iff columns).mpr ⟨h.distinct, fun e he => ⟨h.texts e he, (h.bare e he).isKeyed⟩⟩

namespace Fields.BareColumns

variable {columns : Fields}

theorem filter (h : columns.BareColumns settings) (leaves : Scalar → Bool) :
    Fields.BareColumns settings (columns.filter fun e => leaves e.1) where
  distinct := h.distinct.filter _
  texts e he := h.texts e (List.mem_filter.mp he).1
  bare e he := h.bare e (List.mem_filter.mp he).1

/-- Foreign keys of other names may come behind. -/
theorem append_foreignKeys (h : columns.BareColumns settings)
    (hforeign : settings.foreignKey.Bare settings) {foreignKeys : List String}
    (hnodup : foreignKeys.Nodup)
    (hnew : ∀ column ∈ foreignKeys, .text column ∉ Entries.keys columns) :
    Fields.BareColumns settings (columns ++ foreignKeys.map fun column =>
      (.text column, .map settings.foreignKey)) := by
  have hmem : ∀ {e : Scalar × Value}, e ∈ (foreignKeys.map fun column =>
      (Scalar.text column, Value.map settings.foreignKey)) →
        ∃ column ∈ foreignKeys, e = (.text column, .map settings.foreignKey) := by
    intro e he
    obtain ⟨column, hcolumn, heq⟩ := List.mem_map.mp he
    exact ⟨column, hcolumn, heq.symm⟩
  refine ⟨?_, fun e he => ?_, fun e he => ?_⟩
  · rw [Entries.Distinct, Entries.keys_append, List.nodup_append]
    have hkeys : Entries.keys (foreignKeys.map fun column =>
        (Scalar.text column, Value.map settings.foreignKey)) = foreignKeys.map Scalar.text := by
      rw [Entries.keys, List.map_map]
      rfl
    rw [hkeys]
    refine ⟨h.distinct, hnodup.map fun _ _ => Scalar.text.inj, ?_⟩
    rintro key hkey _ hforeignKey rfl
    obtain ⟨column, hcolumn, rfl⟩ := List.mem_map.mp hforeignKey
    exact hnew column hcolumn hkey
  · rcases List.mem_append.mp he with he | he
    · exact h.texts e he
    · obtain ⟨column, -, rfl⟩ := hmem he
      rfl
  · rcases List.mem_append.mp he with he | he
    · exact h.bare e he
    · obtain ⟨column, -, rfl⟩ := hmem he
      intro node hnode
      exact Value.map.inj hnode ▸ hforeign

end Fields.BareColumns

namespace Fields

variable {node : Fields}

theorem Bare.of_walked (h : node.Bare settings) {n : Fields} (hn : node.Walked n) :
    n.Bare settings :=
  ⟨hn.isKeyed h.isKeyed, fun m hm => h.keeps m (hn.trans hm)⟩

/-- A bare node has no overrides. -/
theorem Bare.override?_eq_none (h : node.Bare settings) (o : Override) :
    settings.override? o node = none := by
  refine Entries.get?_eq_none_iff.mpr fun hmem => ?_
  obtain ⟨e, he, heq⟩ := List.mem_map.mp hmem
  have hkeeps := h.keeps node (.self node) e he
  rw [heq, Settings.keeps, Settings.key, Settings.owns_keyWith] at hkeeps
  exact absurd hkeeps (by decide)

/-- **A node is bare** if it has no override keys itself, its columns and its items are bare and
everything else in it is keyed. -/
theorem Bare.of_entries (hd : Entries.Distinct node)
    (hkeys : ∀ e ∈ node, e.1.isText = true ∧ settings.keeps e.1 = true)
    (hproperties : ∀ columns : Fields, (propertiesKey, .map columns) ∈ node →
      columns.BareColumns settings)
    (hitems : ∀ items : Fields, (.text "items", .map items) ∈ node → items.Bare settings)
    (hother : ∀ e ∈ node, e.1 ≠ propertiesKey → e.1 ≠ .text "items" → e.2.isKeyed = true) :
    node.Bare settings := by
  have hchildren : ∀ c ∈ node.children, c.2.Bare settings := by
    rintro ⟨step, sub⟩ hc
    cases step with
    | property k =>
      obtain ⟨columns, hcolumns, hmem⟩ := property_mem_children_iff.mp hc
      exact (hproperties columns (mem_of_mapping? hcolumns)).bare _ hmem sub rfl
    | items => exact hitems sub (mem_of_mapping? (items_mem_children_iff.mp hc))
  refine ⟨(isKeyed_iff node).mpr ⟨hd, fun e he => ⟨(hkeys e he).1, ?_⟩⟩, fun n hn => ?_⟩
  · obtain ⟨k, v⟩ := e
    by_cases hk : k = propertiesKey
    · subst hk
      cases v with
      | map columns => exact (hproperties columns he).isKeyed
      | _ => rfl
    · by_cases hk' : k = .text "items"
      · subst hk'
        cases v with
        | map items => exact (hitems items he).isKeyed
        | _ => rfl
      · exact hother _ he hk hk'
  · rcases walked_iff.mp hn with rfl | ⟨c, hc, hwalked⟩
    · exact fun e he => (hkeys e he).2
    · exact (hchildren c hc).keeps n hwalked

end Fields

/-! ### What a rewriting makes -/

namespace Rewriting

variable {w : Rewriting} {at_ : Pointer} {node : Fields}

theorem owns_eq_not_keeps (w : Rewriting) (k : Scalar) : w.owns k = !w.settings.keeps k := by
  cases k <;> simp [owns, Settings.keeps]

theorem mem_entries_iff {e' : Scalar × Value} : e' ∈ w.entries at_ node ↔
    ∃ e ∈ node, w.settings.keeps e.1 = true ∧ (e.1, w.entry at_ e.1 e.2) = e' := by
  simp only [entries_eq_map, List.mem_map, List.mem_filter, owns_eq_not_keeps, Bool.not_not,
    and_assoc]

theorem keys_entries (w : Rewriting) (at_ : Pointer) (node : Fields) :
    Entries.keys (w.entries at_ node) = Entries.keys (node.filter fun e => !w.owns e.1) := by
  rw [entries_eq_map, Entries.keys, List.map_map]
  rfl

theorem distinct_entries (hd : Entries.Distinct node) : Entries.Distinct (w.entries at_ node) := by
  rw [Entries.Distinct, keys_entries]
  exact hd.filter _

/-- Whether what the children of a node become is bare: those that are rewritten, and those that are
tables and may stay where they are. -/
structure BareChildren (w : Rewriting) (at_ : Pointer) (node : Fields) : Prop where
  inline : ∀ c ∈ node.children, c.2.isTable = true →
    (w.inline (at_ ++ c.1.path)).Bare w.settings
  rewritten : ∀ c ∈ node.children, c.2.isTable = false →
    Fields.Bare w.settings (w.entries (at_ ++ c.1.path) c.2)

namespace BareChildren

variable (h : w.BareChildren at_ node) (hkeyed : node.isKeyed = true)
include h hkeyed

/-- **The columns of a node** are bare, if a foreign key is. -/
theorem columns (hforeign : w.settings.foreignKey.Bare w.settings) {properties : Fields}
    (hproperties : node.mapping? "properties" = some properties) :
    Fields.BareColumns w.settings (Entries.ofPairs (w.columns at_ properties)) := by
  obtain ⟨-, htexts⟩ := (Fields.isKeyed_iff properties).mp
    (Fields.isKeyed_of_mapping? hkeyed hproperties)
  have hcolumn : ∀ e' ∈ Entries.ofPairs (w.columns at_ properties),
      e'.1.isText = true ∧ e'.2.Bare w.settings := by
    intro e' he'
    have hmem := Entries.mem_of_mem_ofPairs he'
    rw [columns_eq_flatMap] at hmem
    obtain ⟨⟨k, v⟩, he, hmem⟩ := List.mem_flatMap.mp hmem
    cases hkind : v.nodeKind with
    | table =>
      rw [column, hkind, List.mem_singleton] at hmem
      subst hmem
      refine ⟨rfl, fun sub hsub => ?_⟩
      obtain rfl := Value.map.inj hsub
      exact hforeign
    | arrayOfTable =>
      rw [column, hkind] at hmem
      cases hmem
    | embedded | arrayOfEmbedded | scalar =>
      rw [column, hkind, List.mem_singleton] at hmem
      subst hmem
      refine ⟨(htexts _ he).1, fun sub hsub => ?_⟩
      cases v with
      | map child =>
        obtain rfl := Value.map.inj hsub
        have htable : Fields.isTable child = false := by
          rw [← Bool.not_eq_true, ← Fields.kind_eq_table_iff]
          intro htable
          exact absurd (hkind.symm.trans htable) (by decide)
        exact h.rewritten (.property k, child)
          (Fields.property_mem_children_iff.mpr ⟨_, hproperties, he⟩) htable
      | _ => simp [value] at hsub
  exact ⟨Entries.distinct_ofPairs _, fun e he => (hcolumn e he).1, fun e he => (hcolumn e he).2⟩

/-- The items of a node are bare. -/
theorem items {items : Fields} (hitems : (.text "items", .map items) ∈ w.entries at_ node) :
    items.Bare w.settings := by
  obtain ⟨⟨k, v⟩, he, -, heq⟩ := mem_entries_iff.mp hitems
  obtain ⟨rfl, hentry⟩ := Prod.mk.inj heq
  have hne : Scalar.text "items" ≠ propertiesKey := by decide
  simp only [entry, if_neg hne, if_true] at hentry
  cases v with
  | map child =>
    have hc := Fields.items_mem_children_iff.mpr
      (Fields.mapping?_of_mem ((Fields.isKeyed_iff node).mp hkeyed).1 he)
    cases htable : Fields.isTable child with
    | true =>
      rw [if_pos (by exact htable)] at hentry
      obtain rfl := Value.map.inj hentry
      exact h.inline _ hc htable
    | false =>
      rw [if_neg (by exact Bool.eq_false_iff.mp htable)] at hentry
      obtain rfl := Value.map.inj hentry
      exact h.rewritten _ hc htable
  | _ => simp [Value.isTable, value] at hentry

/-- **What becomes of a node** is bare. -/
theorem entries (hforeign : w.settings.foreignKey.Bare w.settings) :
    Fields.Bare w.settings (w.entries at_ node) := by
  obtain ⟨hd, hentries⟩ := (Fields.isKeyed_iff node).mp hkeyed
  refine .of_entries (distinct_entries hd) (fun e he => ?_) (fun columns hcolumns => ?_)
    (fun items hitems => h.items hkeyed hitems) fun e he hproperties hitems => ?_
  · obtain ⟨e', he', hkeeps, rfl⟩ := mem_entries_iff.mp he
    exact ⟨(hentries e' he').1, hkeeps⟩
  · obtain ⟨⟨k, v⟩, he, -, heq⟩ := mem_entries_iff.mp hcolumns
    obtain ⟨rfl, hentry⟩ := Prod.mk.inj heq
    simp only [entry, if_true] at hentry
    cases v with
    | map properties =>
      obtain rfl := Value.map.inj hentry
      exact h.columns hkeyed hforeign (Fields.mapping?_of_mem hd he)
    | _ => simp [Rewriting.properties] at hentry
  · obtain ⟨e', he', -, rfl⟩ := mem_entries_iff.mp he
    simp only [entry, if_neg hproperties, if_neg hitems]
    exact (hentries e' he').2

/-- The columns that a table has of its own are bare. -/
theorem ownColumns (hforeign : w.settings.foreignKey.Bare w.settings) (leaves : Scalar → Bool) :
    Fields.BareColumns w.settings (w.ownColumns at_ leaves node) := by
  unfold Rewriting.ownColumns
  cases hproperties : node.mapping? "properties" with
  | none => exact ⟨List.nodup_nil, by simp [columns_eq_flatMap, Entries.ofPairs],
      by simp [columns_eq_flatMap, Entries.ofPairs]⟩
  | some properties => exact (h.columns hkeyed hforeign hproperties).filter leaves

/-- **The schema of a table** is bare. -/
theorem table (hforeign : w.settings.foreignKey.Bare w.settings)
    (hkeeps : w.settings.keeps propertiesKey = true) {leaves : Scalar → Bool}
    {foreignKeys : List String} (hnodup : foreignKeys.Nodup)
    (hnew : ∀ column ∈ foreignKeys,
      .text column ∉ Entries.keys (w.ownColumns at_ leaves node)) :
    Fields.Bare w.settings (w.table at_ leaves node foreignKeys) := by
  have hentries := h.entries hkeyed hforeign
  obtain ⟨hd, hkeyedEntries⟩ := (Fields.isKeyed_iff _).mp hentries.isKeyed
  have hmem : ∀ e ∈ w.table at_ leaves node foreignKeys, e.1 ≠ propertiesKey →
      e ∈ w.entries at_ node := fun e he hne =>
    (Entries.mem_of_mem_put he).resolve_left fun heq => hne (congrArg Prod.fst heq)
  refine .of_entries (hd.put _ _) (fun e he => ?_) (fun columns hcolumns => ?_)
    (fun items hitems => ?_) fun e he hne _ => (hkeyedEntries e (hmem e he hne)).2
  · rcases Entries.mem_of_mem_put he with rfl | he
    · exact ⟨rfl, hkeeps⟩
    · exact ⟨(hkeyedEntries e he).1, hentries.keeps _ (.self _) e he⟩
  · -- there are no properties but those that have been put in
    have hget := Entries.get?_eq_some_of_mem (hd.put _ _) hcolumns
    rw [Entries.get?_put, if_pos rfl] at hget
    obtain rfl := Value.map.inj (Option.some.inj hget)
    exact (h.ownColumns hkeyed hforeign leaves).append_foreignKeys hforeign hnodup hnew
  · have hne : Scalar.text "items" ≠ propertiesKey := by decide
    exact h.items hkeyed (hmem _ hitems hne)

end BareChildren

/-- **What becomes of the children of a node** is bare, if the tables that stay inside it are. -/
theorem bareChildren (hforeign : w.settings.foreignKey.Bare w.settings)
    (hkeyed : node.isKeyed = true) (hinline : ∀ u ∈ Tree.tablesBelow at_ node.subtrees,
      (w.inline u.1).Bare w.settings) : w.BareChildren at_ node := by
  induction node using Fields.walkInduction generalizing at_ with
  | h node ih =>
    have hbelow : ∀ c ∈ node.children, ∀ u ∈ Tree.tablesFrom (at_ ++ c.1.path) (Tree.ofFields c.2),
        (w.inline u.1).Bare w.settings := fun c hc u hu =>
      hinline u (Tree.mem_tablesBelow_iff.mpr ⟨_, List.mem_map.mpr ⟨c, hc, rfl⟩, hu⟩)
    refine ⟨fun c hc htable => ?_, fun c hc _ => ?_⟩
    · refine hbelow c hc (at_ ++ c.1.path, Tree.ofFields c.2) ?_
      rw [Tree.tablesFrom_ofFields, if_pos htable]
      exact List.mem_append_right _ (List.mem_singleton_self _)
    · have hsub := Fields.isKeyed_of_mem_children hkeyed hc
      refine (ih c hc hsub fun u hu => hbelow c hc u ?_).entries hsub hforeign
      rw [Tree.tablesFrom_ofFields]
      exact List.mem_append_left _ hu

end Rewriting

/-! ### Registered tables -/

/-- The tables inside a node are visited from its children. -/
theorem Tree.walked_of_mem_tablesBelow {at_ : Pointer} {node : Fields} {u : Pointer × Tree}
    (hu : u ∈ Tree.tablesBelow at_ node.subtrees) :
    ∃ c ∈ node.children, c.2.Walked u.2.fields := by
  obtain ⟨_, hc', hfrom⟩ := Tree.mem_tablesBelow_iff.mp hu
  obtain ⟨c, hc, rfl⟩ := List.mem_map.mp hc'
  rw [Tree.tablesFrom_eq_map] at hfrom
  obtain ⟨v, hv, rfl⟩ := List.mem_map.mp hfrom
  exact ⟨c, hc, @Tree.walked_of_mem_tables c.2 v hv⟩

variable {schema : Fields} {binder : Binder η ε} {models : Entries String η}

/-- **The schema of a registered table is bare**, if the schema of a foreign key is and the prefix
does not own the keywords that lead to other nodes. -/
theorem bare_schema (hset : settings.IsValid) (hkeyed : schema.isKeyed = true)
    (hproperties : settings.owns "properties" = false) (hitems : settings.owns "items" = false)
    (hforeign : settings.foreignKey.Bare settings)
    (hok : (compile binder settings (.map schema)).result = .ok models) {d : Descriptor η}
    (hd : d ∈ (compile binder settings (.map schema)).tables) : d.schema.Bare settings := by
  have hlength := length_tables_of_result_eq_ok hset hkeyed hok
  suffices hall : ∀ node : Fields, ∀ (i : Nat) (p : Pointer) (d : Descriptor η),
      (Tree.ofFields schema).tables[i]? = some (p, Tree.ofFields node) →
        (compile binder settings (.map schema)).tables[i]? = some d → d.schema.Bare settings by
    obtain ⟨i, hi⟩ := List.getElem?_of_mem hd
    obtain ⟨t, ht⟩ : ∃ t, (Tree.ofFields schema).tables[i]? = some t :=
      ⟨_, List.getElem?_eq_getElem (hlength ▸ (List.getElem?_eq_some_iff.mp hi).1)⟩
    obtain ⟨htree, -⟩ := Tree.ofFields_of_mem_tables hkeyed (List.mem_of_getElem? ht)
    exact hall t.2.fields i t.1 d (htree ▸ ht) hi
  intro node
  induction node using Fields.walkedInduction with
  | h node ih =>
    intro i p d ht hd
    have hmem := List.mem_of_getElem? ht
    obtain ⟨-, hnode⟩ := Tree.ofFields_of_mem_tables hkeyed hmem
    obtain ⟨foreignKeys, hnodup, hnew, hschema⟩ :=
      exists_schema_eq_table hset hkeyed hproperties hitems hok ht hd
    have hkeeps : settings.keeps propertiesKey = true := by
      rw [propertiesKey, Settings.keeps, hproperties]
      rfl
    have hchildren : ((compile binder settings (.map schema)).rewriting settings schema).BareChildren
        p node := by
      refine Rewriting.bareChildren hforeign hnode fun u hu => ?_
      -- a table inside has a place of its own, and its descriptor is bare by induction
      have hinside : u ∈ (Tree.ofFields schema).tables := by
        refine (Tree.infix_tablesFrom [] (Tree.ofFields schema) hmem).subset ?_
        rw [Tree.tablesFrom_ofFields]
        exact List.mem_append_left _ hu
      obtain ⟨j, hj⟩ := List.getElem?_of_mem hinside
      obtain ⟨htree, -⟩ := Tree.ofFields_of_mem_tables hkeyed hinside
      have hdj := List.getElem?_eq_getElem
        (hlength ▸ (List.getElem?_eq_some_iff.mp hj).1 :
          j < (compile binder settings (.map schema)).tables.length)
      obtain ⟨c, hc, hwalked⟩ := Tree.walked_of_mem_tablesBelow hu
      have hbare := ih c hc u.2.fields hwalked j u.1 _ (htree ▸ hj) hdj
      rw [← Outcome.schemaAt_eq hkeyed hlength hj hdj] at hbare
      exact hbare
    rw [hschema]
    exact hchildren.table hnode hforeign hkeeps hnodup fun column hcolumn =>
      ((hnew column).mp hcolumn).1

end NestedTables
