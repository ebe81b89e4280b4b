import NestedTables.Proofs.Compile.Collisions
import NestedTables.Proofs.Compile.Copies
import NestedTables.Proofs.Compile.Reordered

/-!
# The order of properties

The properties of a node are written in some order, and the walk goes through them in that order.
So the order decides which of two tables is registered first, which column is asked for before a
table is there, and where a relation comes in. It makes no difference to what is registered
(`compile_reordered`): if a schema compiles, so does the schema in another order, and the two have
the same descriptors, but for the order of the descriptors themselves, of the relations and of
properties.

This needs a proviso. If a property has the name of a foreign key that a table leaves, one of the
two takes the place of the other, and the order says which.

The descriptors are compared by the pointers of their tables. The schemas are compared by induction
on the place at which a table is registered: the tables inside it have earlier places, in one order
as in the other.
-/

namespace NestedTables

variable {η ε : Type} {settings : Settings}

/-- Corresponding sites become the same relation. -/
theorem Site.relation_eq_of_reordered {θ : Type} {setting : Walk.Setting η ε} {owner : Context}
    {s s' : Site} (hway : s'.way = s.way) (hname : s'.name = s.name)
    (hchild : s.child.fields.Reordered s'.child.fields) :
    (s.relation setting owner : Relation θ) = s'.relation setting owner := by
  have htarget := Site.reordered_target hchild
  rw [relation, relation, hchild.isTable_eq, htarget.names_eq, htarget.idPath_eq, hchild.join_eq,
    hway, hname]

namespace Fields.Reordered

variable {node node' : Fields} (h : node.Reordered node') (hkeyed : node.isKeyed = true)
include h hkeyed

/-! ### What the two schemas declare -/

/-- Tables with one pointer correspond. -/
theorem reordered_of_pointer_eq {t t' : Pointer × Tree} (ht : t ∈ (Tree.ofFields node).tables)
    (ht' : t' ∈ (Tree.ofFields node').tables) (hpointer : t.1 = t'.1) :
    t.2.fields.Reordered t'.2.fields := by
  have hkeyed' := h.isKeyed hkeyed
  obtain ⟨u, hu, hu', hrel⟩ := h.exists_table hkeyed hkeyed' ht
  obtain rfl : u = t' := List.inj_on_of_nodup_map (Tree.nodup_pointers hkeyed') hu ht'
    (hu'.trans hpointer)
  exact hrel

/-- The two schemas have the same pointers of tables. -/
theorem pointers_perm : ((Tree.ofFields node).tables.map (·.1)).Perm
    ((Tree.ofFields node').tables.map (·.1)) := by
  have hsub : ∀ {n n' : Fields}, n.Reordered n' → n.isKeyed = true → ∀ p,
      p ∈ (Tree.ofFields n).tables.map (·.1) → p ∈ (Tree.ofFields n').tables.map (·.1) := by
    intro n n' hn hn' p hp
    obtain ⟨t, ht, rfl⟩ := List.mem_map.mp hp
    obtain ⟨t', ht', hpointer, -⟩ := hn.exists_table hn' (hn.isKeyed hn') ht
    exact List.mem_map.mpr ⟨t', ht', hpointer⟩
  have hkeyed' := h.isKeyed hkeyed
  refine (List.perm_ext_iff_of_nodup (Tree.nodup_pointers hkeyed)
    (Tree.nodup_pointers hkeyed')).mpr fun p => ?_
  exact ⟨hsub h hkeyed p, hsub h.symm hkeyed' p⟩

theorem mem_relations {setting : Walk.Setting η ε} {e : String × Relation Unit}
    (he : e ∈ (Tree.ofFields node).sites.map fun s =>
      (s.name, s.relation setting ((Tree.ofFields node).context setting.settings))) :
    e ∈ (Tree.ofFields node').sites.map fun s =>
      (s.name, s.relation setting ((Tree.ofFields node').context setting.settings)) := by
  obtain ⟨s, hs, rfl⟩ := List.mem_map.mp he
  obtain ⟨s', hs', hway, hname, hchild⟩ := h.exists_site hkeyed (h.isKeyed hkeyed) hs
  refine List.mem_map.mpr ⟨s', hs', ?_⟩
  rw [hname, ← h.context_eq, Site.relation_eq_of_reordered hway hname hchild]

/-- **The relations of corresponding tables** are the same. -/
theorem relations_perm {setting : Walk.Setting η ε} {d d' : Descriptor η}
    (hd : d.Describes setting (Tree.ofFields node))
    (hd' : d'.Describes setting (Tree.ofFields node')) :
    (d.relations.mapValues Relation.withoutTarget : Entries String (Relation Unit)).Perm
      (d'.relations.mapValues Relation.withoutTarget) := by
  have hnodup : ∀ e : Descriptor η, Entries.Distinct e.relations →
      (e.relations.mapValues Relation.withoutTarget : Entries String (Relation Unit)).Nodup := by
    intro e he
    rw [Entries.Distinct, ← Entries.keys_mapValues (Relation.withoutTarget (θ := Unit))] at he
    exact List.Nodup.of_map _ he
  refine (List.perm_ext_iff_of_nodup (hnodup d hd.distinct) (hnodup d' hd'.distinct)).mpr
    fun e => ?_
  rw [hd.relations.mem_iff, hd'.relations.mem_iff]
  exact ⟨h.mem_relations hkeyed, h.symm.mem_relations (h.isKeyed hkeyed)⟩

/-- A name that two sites have is the name of two sites in another order. -/
theorem repeats {name : Scalar} (hrepeats : (Tree.ofFields node).Repeats name) :
    (Tree.ofFields node').Repeats name := by
  obtain ⟨s₁, hs₁, s₂, hs₂, hway, hname₁, hname₂⟩ := hrepeats
  obtain ⟨s₁', hs₁', hway₁, hname₁', -⟩ := h.exists_site hkeyed (h.isKeyed hkeyed) hs₁
  obtain ⟨s₂', hs₂', hway₂, hname₂', -⟩ := h.exists_site hkeyed (h.isKeyed hkeyed) hs₂
  exact ⟨s₁', hs₁', s₂', hs₂', by rwa [hway₁, hway₂], by rwa [hname₁'], by rwa [hname₂']⟩

/-- If no two sites of a table have one name, none have in another order. -/
theorem nodup_siteNames (hnames : ∀ t ∈ (Tree.ofFields node).tables, t.2.siteNames.Nodup) :
    ∀ t' ∈ (Tree.ofFields node').tables, t'.2.siteNames.Nodup := by
  intro t' ht'
  by_contra hdup
  obtain ⟨name, hname⟩ := List.exists_duplicate_iff_not_nodup.mpr hdup
  have hkeyed' := h.isKeyed hkeyed
  obtain ⟨t, ht, -, hrel⟩ := h.symm.exists_table hkeyed' hkeyed ht'
  obtain ⟨htree, -⟩ := Tree.ofFields_of_mem_tables hkeyed ht
  obtain ⟨htree', hnode'⟩ := Tree.ofFields_of_mem_tables hkeyed' ht'
  rw [htree'] at hname
  have hrepeats := hrel.repeats hnode' (Tree.repeats_of_duplicate hnode' hname)
  rw [← htree] at hrepeats
  exact Tree.not_nodup_of_repeats hrepeats (hnames t ht)

/-- **The same foreign keys are asked for.** -/
theorem asksForColumn {table column : String} (hasks : node.AsksForColumn settings table column) :
    node'.AsksForColumn settings table column := by
  obtain ⟨u, hu, a, ha, hkind, hname, hto, hthrough, rfl⟩ := hasks
  obtain ⟨u', hu', -, hrel⟩ := h.exists_table hkeyed (h.isKeyed hkeyed) hu
  obtain ⟨htree, hnode⟩ := Tree.ofFields_of_mem_tables hkeyed hu
  obtain ⟨htree', -⟩ := Tree.ofFields_of_mem_tables (h.isKeyed hkeyed) hu'
  rw [htree] at ha
  obtain ⟨a', ha', -, -, hchild⟩ := hrel.exists_site hnode (hrel.isKeyed hnode) ha
  rw [← htree'] at ha'
  exact ⟨u', hu', a', ha', hchild.kind_eq ▸ hkind, (Site.reordered_target hchild).names_eq ▸ hname,
    hchild.override?_eq _ ▸ hto, hchild.override?_eq _ ▸ hthrough, by rw [hrel.idPath_eq]⟩

end Fields.Reordered

/-! ### Two runs -/

section Runs

variable {setting : Walk.Setting η ε} {schema schema' : Fields} {log log' : List Event}
  {s s' : Stage η}

/-- **Tables with one pointer have schemas that correspond.** -/
theorem schema_reordered (h : schema.Reordered schema') (hkeyed : schema.isKeyed = true)
    (hfree : ∀ n, schema.Walked n → n.StubsFree)
    (hrun : (Stage.start log).Performs setting
      (Walk.acts setting none none [] 0 (Tree.ofFields schema)) s)
    (hrun' : (Stage.start log').Performs setting
      (Walk.acts setting none none [] 0 (Tree.ofFields schema')) s')
    (hasked : ∀ table,
      (Act.asked table (Walk.acts setting none none [] 0 (Tree.ofFields schema))).eraseDups.Perm
        (Act.asked table (Walk.acts setting none none [] 0 (Tree.ofFields schema'))).eraseDups)
    {i j : Nat} {t t' : Pointer × Tree} (ht : (Tree.ofFields schema).tables[i]? = some t)
    (ht' : (Tree.ofFields schema').tables[j]? = some t') (hpointer : t.1 = t'.1)
    {d d' : Descriptor η} (hd : s.registry.descriptors[i]? = some d)
    (hd' : s'.registry.descriptors[j]? = some d') : d.schema.Reordered d'.schema := by
  induction i using Nat.strongRecOn generalizing j t t' d d' with
  | ind i ih =>
    have hkeyed' := h.isKeyed hkeyed
    obtain ⟨u, start, hu, hstart, rfl⟩ := exists_located hkeyed hrun hd
    obtain ⟨u', start', hu', hstart', rfl⟩ := exists_located hkeyed' hrun' hd'
    obtain rfl := Option.some.inj (ht.symm.trans hu)
    obtain rfl := Option.some.inj (ht'.symm.trans hu')
    have hmem := List.mem_of_getElem? ht
    have hrel := h.reordered_of_pointer_eq hkeyed hmem (List.mem_of_getElem? ht') hpointer
    obtain ⟨-, hnode⟩ := Tree.ofFields_of_mem_tables hkeyed hmem
    have hwalked := Tree.walked_of_mem_tables hmem
    -- the tables inside have been registered before, and they correspond
    have hmatches : Matches (((s.registry.descriptors.take i).map Descriptor.schema).drop start)
        (((s'.registry.descriptors.take j).map Descriptor.schema).drop start')
        (Tree.tablesBelow t.1 t.2.fields.subtrees).zipIdx
        (Tree.tablesBelow t.1 t'.2.fields.subtrees).zipIdx := by
      rintro ⟨v, k⟩ hv ⟨v', k'⟩ hv' hvv'
      rw [List.mem_zipIdx_iff_getElem?] at hv hv'
      obtain ⟨e, hlt, hplace, he, hschema⟩ := exists_inside hkeyed hrun ht hstart hv
      obtain ⟨e', -, hplace', he', hschema'⟩ :=
        exists_inside hkeyed' hrun' ht' hstart' (hpointer ▸ hv')
      simp only [List.getD_eq_getElem?_getD, hschema, hschema', Option.getD_some]
      exact ih (start + k) hlt hplace hplace' hvv' he he'
    rw [hrel.names_eq]
    exact Draft.reordered_located hrel hnode (fun n hn => hfree n (hwalked.trans hn)) hmatches _ _
      (Stage.nodup_eraseDups _) (hasked _)

end Runs

/-- Whether two descriptors are the same, but for the order of properties and of relations. The
handles in the relations are left out. -/
structure Descriptor.Alike (d d' : Descriptor η) : Prop where
  modelName : d.modelName = d'.modelName
  tableName : d.tableName = d'.tableName
  idColumn : d.idColumn = d'.idColumn
  schema : d.schema.Reordered d'.schema
  relations : (d.relations.mapValues Relation.withoutTarget : Entries String (Relation Unit)).Perm
    (d'.relations.mapValues Relation.withoutTarget)

variable {schema schema' : Fields}

/-- **A schema in another order compiles** if the schema does and the binder refuses nothing. -/
theorem exists_result_of_reordered {binder : Binder η ε} (hset : settings.IsValid)
    (hkeyed : schema.isKeyed = true)
    (htakes : ∀ before d, ∃ handle, binder.create before d = .ok handle)
    (h : schema.Reordered schema') {models : Entries String η}
    (hok : (compile binder settings (.map schema)).result = .ok models) :
    ∃ models', (compile binder settings (.map schema')).result = .ok models' := by
  have hvalid := isValid_of_result_eq_ok binder hok
  obtain ⟨-, -, -, -, hnames⟩ := exists_finished binder hset hkeyed hok
  exact exists_result binder hset (h.isKeyed hkeyed) (h.isValid_checkAll hkeyed hvalid)
    (h.nodup_siteNames hkeyed hnames) htakes

/-- Lists of different keys go along with lists that go along with the keys. -/
theorem exists_perm_of_keys {κ α β : Type} {R : κ → α → Prop} {S : κ → β → Prop}
    {T : α → β → Prop} (hT : ∀ k a b, R k a → S k b → T a b) {ks ks' : List κ} {as : List α}
    {bs : List β} (hperm : ks.Perm ks') (hR : List.Forall₂ R ks as)
    (hS : List.Forall₂ S ks' bs) : ∃ bs', List.Forall₂ T as bs' ∧ bs'.Perm bs := by
  obtain ⟨bs', hbs', hperm'⟩ := List.perm_comp_forall₂ hperm hS
  exact ⟨bs', forall₂_comp (fun a k b hk hb => hT k a b hk hb) hR.flip hbs', hperm'⟩

/-- Whether a registered descriptor is that of the table with a pointer. -/
def Outcome.TableAt (outcome : Outcome η ε) (schema : Fields) (p : Pointer) (d : Descriptor η) :
    Prop :=
  ∃ (i : Nat) (t : Pointer × Tree), (Tree.ofFields schema).tables[i]? = some t ∧ t.1 = p ∧
    outcome.tables[i]? = some d

theorem forall₂_tableAt {binder : Binder η ε} (hset : settings.IsValid)
    (hkeyed : schema.isKeyed = true) {models : Entries String η}
    (hok : (compile binder settings (.map schema)).result = .ok models) :
    List.Forall₂ ((compile binder settings (.map schema)).TableAt schema)
      ((Tree.ofFields schema).tables.map (·.1)) (compile binder settings (.map schema)).tables := by
  refine List.forall₂_map_left_iff.mpr (forall₂_of_getElem?
    (length_tables_of_result_eq_ok hset hkeyed hok) fun i t d ht hd => ?_)
  exact ⟨i, t, ht, rfl, hd⟩

/-- **The order of properties makes no difference.** If a schema compiles with a binder that refuses
nothing, and no node has a property with the name of a foreign key that one of its tables leaves,
then the schema in another order compiles, and the two have the same descriptors, but for their
order, for that of their relations and for that of properties. -/
theorem compile_reordered (binder : Binder η ε) (hset : settings.IsValid)
    (hkeyed : schema.isKeyed = true) (hfree : ∀ n, schema.Walked n → n.StubsFree)
    (htakes : ∀ before d, ∃ handle, binder.create before d = .ok handle)
    (h : schema.Reordered schema') {models : Entries String η}
    (hok : (compile binder settings (.map schema)).result = .ok models) :
    (∃ models', (compile binder settings (.map schema')).result = .ok models') ∧
    ∃ tables, List.Forall₂ Descriptor.Alike (compile binder settings (.map schema)).tables tables ∧
      tables.Perm (compile binder settings (.map schema')).tables := by
  obtain ⟨models', hok'⟩ := exists_result_of_reordered hset hkeyed htakes h hok
  refine ⟨⟨models', hok'⟩, ?_⟩
  have hkeyed' := h.isKeyed hkeyed
  have hvalid := isValid_of_result_eq_ok binder hok
  have hvalid' := isValid_of_result_eq_ok binder hok'
  obtain ⟨done, s, -, hrun, htables, hall⟩ := exists_performs binder hset hkeyed
  obtain ⟨done', s', -, hrun', htables', hall'⟩ := exists_performs binder hset hkeyed'
  obtain rfl := hall models hok
  obtain rfl := hall' models' hok'
  have hasked : ∀ table, (Act.asked table (compileActs binder settings schema)).eraseDups.Perm
      (Act.asked table (compileActs binder settings schema')).eraseDups := by
    intro table
    refine (List.perm_ext_iff_of_nodup (Stage.nodup_eraseDups _) (Stage.nodup_eraseDups _)).mpr
      fun column => ?_
    rw [List.mem_eraseDups, List.mem_eraseDups, mem_asked_compileActs_iff hkeyed hvalid,
      mem_asked_compileActs_iff hkeyed' hvalid']
    exact ⟨h.asksForColumn hkeyed, h.symm.asksForColumn hkeyed'⟩
  refine exists_perm_of_keys ?_ (h.pointers_perm hkeyed) (forall₂_tableAt hset hkeyed hok)
    (forall₂_tableAt hset hkeyed' hok')
  rintro p d d' ⟨i, t, ht, rfl, hd⟩ ⟨j, t', ht', hpointer, hd'⟩
  have hdescribes := describes_of_result_eq_ok hset hkeyed hok ht hd
  have hdescribes' := describes_of_result_eq_ok hset hkeyed' hok' ht' hd'
  have hmem := List.mem_of_getElem? ht
  have hmem' := List.mem_of_getElem? ht'
  have hrel := h.reordered_of_pointer_eq hkeyed hmem hmem' hpointer.symm
  obtain ⟨htree, hnode⟩ := Tree.ofFields_of_mem_tables hkeyed hmem
  obtain ⟨htree', -⟩ := Tree.ofFields_of_mem_tables hkeyed' hmem'
  refine ⟨?_, ?_, ?_, ?_, ?_⟩
  · rw [hdescribes.modelName, hdescribes'.modelName, hrel.names_eq]
  · rw [hdescribes.tableName, hdescribes'.tableName, hrel.names_eq]
  · rw [hdescribes.idColumn, hdescribes'.idColumn, hrel.names_eq]
  · rw [← htables] at hd
    rw [← htables'] at hd'
    exact schema_reordered h hkeyed hfree hrun hrun' hasked ht ht' hpointer.symm hd hd'
  · rw [htree] at hdescribes
    rw [htree'] at hdescribes'
    exact hrel.relations_perm hnode hdescribes hdescribes'

/-- A school in one order. -/
def schoolSchema : Fields :=
  [(.text "$id", .text "school"), (.text "properties", .object
    [("pupils", .object [("items", .object [("$id", .text "person"),
      ("properties", .object [("name", .map []), ("home", .object [("properties", .object
        [("street", .map []), ("city", .map [])])])])])]),
    ("head", .object [("$id", .text "person")]),
    ("founded", .map [])])]

/-- The school with its head before its pupils, and their homes in another order. -/
def headFirstSchema : Fields :=
  [(.text "$id", .text "school"), (.text "properties", .object
    [("founded", .map []),
    ("head", .object [("$id", .text "person")]),
    ("pupils", .object [("items", .object [("$id", .text "person"),
      ("properties", .object [("home", .object [("properties", .object
        [("city", .map []), ("street", .map [])])]), ("name", .map [])])])])])]

theorem schoolSchema_reordered : schoolSchema.Reordered headFirstSchema := by
  have hhome : Value.Reordered
      (.object [("properties", .object [("street", .map []), ("city", .map [])])])
      (.object [("properties", .object [("city", .map []), ("street", .map [])])]) :=
    .node (.properties (.cons _ (.refl _) (.cons _ (.refl _) .nil)) (.swap _ _ _) .nil)
  have hpupils : Value.Reordered
      (.object [("items", .object [("$id", .text "person"), ("properties", .object
        [("name", .map []), ("home", .object [("properties", .object
          [("street", .map []), ("city", .map [])])])])])])
      (.object [("items", .object [("$id", .text "person"), ("properties", .object
        [("home", .object [("properties", .object
          [("city", .map []), ("street", .map [])])]), ("name", .map [])])])]) :=
    .node (.items (.node (.same _ (.properties
      (.cons _ (.refl _) (.cons _ hhome .nil)) (.swap _ _ _) .nil))) .nil)
  exact .same _ (.properties
    (.cons _ hpupils (.cons _ (.refl _) (.cons _ (.refl _) .nil)))
    (List.reverse_perm _).symm .nil)

/-- The person who is registered before the foreign key is asked for has it too, in either order. -/
theorem compile_reordered_school :
    ({} : Settings).IsValid ∧ schoolSchema.isKeyed = true ∧
      (∀ n, schoolSchema.Walked n → n.StubsFree) ∧
      (∀ before d, ∃ handle,
        (Binder.counting : Binder Nat Empty).create before d = .ok handle) ∧
      schoolSchema.Reordered headFirstSchema ∧
      (compile (Binder.counting : Binder Nat Empty) {} (.map schoolSchema)).result =
        .ok [("person", 1), ("school", 2)] ∧
      (compile (Binder.counting : Binder Nat Empty) {} (.map headFirstSchema)).result =
        .ok [("person", 1), ("school", 2)] ∧
      ∃ tables, List.Forall₂ Descriptor.Alike
          (compile (Binder.counting : Binder Nat Empty) {} (.map schoolSchema)).tables tables ∧
        tables.Perm
          (compile (Binder.counting : Binder Nat Empty) {} (.map headFirstSchema)).tables := by
  have hkeyed : schoolSchema.isKeyed = true := by decide
  have hnodes : ∀ n ∈ schoolSchema.nodes, n.2.StubsFree := by decide
  have hfree : ∀ n, schoolSchema.Walked n → n.StubsFree := by
    rintro n ⟨p, hp⟩
    exact hnodes _ hp
  have htakes : ∀ before d, ∃ handle,
      (Binder.counting : Binder Nat Empty).create before d = .ok handle := fun _ _ => ⟨_, rfl⟩
  have hok : (compile (Binder.counting : Binder Nat Empty) {} (.map schoolSchema)).result =
      .ok [("person", 1), ("school", 2)] := by
    rfl
  exact ⟨Settings.isValid_default, hkeyed, hfree, htakes, schoolSchema_reordered, hok, rfl,
    (compile_reordered Binder.counting Settings.isValid_default hkeyed hfree htakes
      schoolSchema_reordered hok).2⟩

end NestedTables
