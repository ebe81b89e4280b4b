import NestedTables.Proofs.Compile.Located
import NestedTables.Proofs.Compile.TableNames

/-!
# Copies of a table

A schema in which references have been replaced by what they refer to has the same table in many
places. All copies of a table end with the same descriptor, except that their relations lead to the
copies of the other tables (`compile_copies`): names, schema with the order of its columns, and
relations with their order.

What is registered for a table depends on its node, on the columns that have been asked for by name,
and on the schemas of the tables inside it (`exists_located`). These are copies of each other in
turn, and they have been registered earlier; so the proof is by induction on the place.
-/

namespace NestedTables

variable {η ε : Type}

/-! ### The tables inside a table -/

namespace Tree

variable {root : Fields} {t u : Pointer × Tree} {i start k : Nat}

/-- The children of a table are those of its node. -/
theorem children_of_mem_tables (hkeyed : root.isKeyed = true) (ht : t ∈ (ofFields root).tables) :
    t.2.children = t.2.fields.subtrees := by
  obtain ⟨htree, -⟩ := ofFields_of_mem_tables hkeyed ht
  rw [htree, ofFields_eq_node]
  rfl

/-- **The tables inside a table** have the places right before it, in their order. -/
theorem getElem?_of_tablesBelow (hkeyed : root.isKeyed = true)
    (ht : (ofFields root).tables[i]? = some t)
    (hstart : start + countBelow t.2.fields.subtrees = i)
    (hu : (tablesBelow t.1 t.2.fields.subtrees)[k]? = some u) :
    (ofFields root).tables[start + k]? = some u := by
  rw [← children_of_mem_tables hkeyed (List.mem_of_getElem? ht)] at hstart hu
  have hplace : (t, i) ∈ (ofFields root).tables.zipIdx := List.mem_zipIdx_iff_getElem?.mpr ht
  have hmem : (u, start + k) ∈ (tablesBelow t.1 t.2.children).zipIdx start := by
    refine List.mem_of_getElem? (i := k) ?_
    rw [List.getElem?_zipIdx, hu, Option.map_some]
  exact List.mem_zipIdx_iff_getElem?.mp (zipIdx_tablesBelow_subset [] _ hplace hstart hmem)

/-- The tables inside equal nodes are equal, wherever the nodes stand. -/
theorem map_tablesBelow_eq (at_ at' : Pointer) (children : List (Step × Tree)) :
    (tablesBelow at_ children).map (·.2) = (tablesBelow at' children).map (·.2) := by
  rw [tablesBelow_eq_map at_, tablesBelow_eq_map at', List.map_map, List.map_map]
  rfl

end Tree

/-- What is left of a list between two places. -/
theorem getElem?_drop_take {α : Type} (as : List α) {start count i : Nat}
    (h : start + count = i) (k : Nat) :
    ((as.take i).drop start)[k]? = if k < count then as[start + k]? else none := by
  rw [List.getElem?_drop, List.getElem?_take]
  exact if_congr (by omega) rfl rfl

/-! ### Copies -/

section Run

variable {setting : Walk.Setting η ε} {root : Fields} {log : List Event} {s : Stage η}

/-- There is a descriptor for every table when all acts have been performed. -/
theorem Stage.Performs.length_descriptors (h : (Stage.start log).Performs setting
    (Walk.acts setting none none [] 0 (Tree.ofFields root)) s) :
    s.registry.descriptors.length = (Tree.ofFields root).tables.length := by
  rw [NestedTables.length_descriptors h, Walk.length_registered_acts]
  rfl

/-- **The tables inside a table** have been registered before it, and its schema is described with
theirs. -/
theorem exists_inside (hkeyed : root.isKeyed = true)
    (h : (Stage.start log).Performs setting
      (Walk.acts setting none none [] 0 (Tree.ofFields root)) s) {i start k : Nat}
    {t u : Pointer × Tree} (ht : (Tree.ofFields root).tables[i]? = some t)
    (hstart : start + Tree.countBelow t.2.fields.subtrees = i)
    (hu : (Tree.tablesBelow t.1 t.2.fields.subtrees)[k]? = some u) :
    ∃ d, start + k < i ∧ (Tree.ofFields root).tables[start + k]? = some u ∧
      s.registry.descriptors[start + k]? = some d ∧
      (((s.registry.descriptors.take i).map Descriptor.schema).drop start)[k]? =
        some d.schema := by
  have hplace := Tree.getElem?_of_tablesBelow hkeyed ht hstart hu
  obtain ⟨d, hd⟩ : ∃ d, s.registry.descriptors[start + k]? = some d := by
    refine ⟨_, List.getElem?_eq_getElem ?_⟩
    rw [h.length_descriptors]
    exact (List.getElem?_eq_some_iff.mp hplace).1
  have hk : k < Tree.countBelow t.2.fields.subtrees := by
    rw [← Tree.length_tablesBelow t.1]
    exact (List.getElem?_eq_some_iff.mp hu).1
  refine ⟨d, by omega, hplace, hd, ?_⟩
  rw [List.map_take, getElem?_drop_take _ hstart, if_pos hk, List.getElem?_map, hd,
    Option.map_some]

/-- **Copies of a table have one schema.** -/
theorem schema_eq_of_fields_eq (hkeyed : root.isKeyed = true)
    (h : (Stage.start log).Performs setting
      (Walk.acts setting none none [] 0 (Tree.ofFields root)) s) {i j : Nat}
    {t u : Pointer × Tree} (ht : (Tree.ofFields root).tables[i]? = some t)
    (hu : (Tree.ofFields root).tables[j]? = some u) (hcopy : t.2.fields = u.2.fields)
    {d d' : Descriptor η} (hd : s.registry.descriptors[i]? = some d)
    (hd' : s.registry.descriptors[j]? = some d') : d.schema = d'.schema := by
  induction i using Nat.strongRecOn generalizing j t u d d' with
  | ind i ih =>
    obtain ⟨t', start, ht', hstart, rfl⟩ := exists_located hkeyed h hd
    obtain ⟨u', start', hu', hstart', rfl⟩ := exists_located hkeyed h hd'
    obtain rfl := Option.some.inj (ht.symm.trans ht')
    obtain rfl := Option.some.inj (hu.symm.trans hu')
    -- the tables inside the copies are copies, and they stand in the same order
    have hinside : ((s.registry.descriptors.take i).map Descriptor.schema).drop start =
        ((s.registry.descriptors.take j).map Descriptor.schema).drop start' := by
      have hlength : (Tree.tablesBelow t.1 t.2.fields.subtrees).length =
          (Tree.tablesBelow u.1 u.2.fields.subtrees).length := by
        rw [hcopy, Tree.length_tablesBelow, Tree.length_tablesBelow]
      refine List.ext_getElem? fun k => ?_
      have hsame := congrArg (fun trees : List Tree => trees[k]?)
        (Tree.map_tablesBelow_eq t.1 u.1 u.2.fields.subtrees)
      simp only [List.getElem?_map] at hsame
      rw [← hcopy] at hsame
      rcases Nat.lt_or_ge k (Tree.tablesBelow t.1 t.2.fields.subtrees).length with hk | hk
      · obtain ⟨v, hv⟩ : ∃ v, (Tree.tablesBelow t.1 t.2.fields.subtrees)[k]? = some v :=
          ⟨_, List.getElem?_eq_getElem hk⟩
        rw [hv, Option.map_some, eq_comm, Option.map_eq_some_iff] at hsame
        obtain ⟨w, hw, hvw⟩ := hsame
        obtain ⟨e, hlt, hv', he, hschema⟩ := exists_inside hkeyed h ht hstart hv
        obtain ⟨e', -, hw', he', hschema'⟩ := exists_inside hkeyed h hu hstart' (hcopy ▸ hw)
        rw [hschema, hschema', ih (start + k) hlt hv' hw' (congrArg Tree.fields hvw.symm) he he']
      · rw [List.map_take, List.map_take, getElem?_drop_take _ hstart,
          getElem?_drop_take _ hstart', if_neg, if_neg]
        · rw [← Tree.length_tablesBelow u.1, ← hlength]
          omega
        · rw [← Tree.length_tablesBelow t.1]
          omega
    rw [hinside, hcopy]
    rfl

end Run

variable {settings : Settings} {schema : Fields}

/-- **Copies of a table have one descriptor**, apart from the handles in their relations: the same
names, the same schema with its columns in the same order, and the same relations in the same
order. -/
theorem compile_copies (binder : Binder η ε) (hset : settings.IsValid)
    (hkeyed : schema.isKeyed = true) {models : Entries String η}
    (hok : (compile binder settings (.map schema)).result = .ok models) {i j : Nat}
    {t u : Pointer × Tree} (ht : (Tree.ofFields schema).tables[i]? = some t)
    (hu : (Tree.ofFields schema).tables[j]? = some u) (hcopy : t.2.fields = u.2.fields) :
    ∃ d d', (compile binder settings (.map schema)).tables[i]? = some d ∧
      (compile binder settings (.map schema)).tables[j]? = some d' ∧
      (d.withoutTargets : Descriptor Unit) = d'.withoutTargets := by
  obtain ⟨done, s, -, hperforms, htables, hall⟩ := exists_performs binder hset hkeyed
  obtain rfl := hall models hok
  unfold compileActs at hperforms
  obtain ⟨d, hd, hdescribes⟩ := exists_describing hset hkeyed hok ht
  obtain ⟨d', hd', hdescribes'⟩ := exists_describing hset hkeyed hok hu
  refine ⟨d, d', hd, hd', ?_⟩
  rw [← htables] at hd hd'
  have hschema := schema_eq_of_fields_eq hkeyed hperforms ht hu hcopy hd hd'
  have hrelations : (d.relations.mapValues Relation.withoutTarget :
      Entries String (Relation Unit)) = d'.relations.mapValues Relation.withoutTarget := by
    obtain ⟨t', start, ht', -, rfl⟩ := exists_located hkeyed hperforms hd
    obtain ⟨u', start', hu', -, rfl⟩ := exists_located hkeyed hperforms hd'
    obtain rfl := Option.some.inj (ht.symm.trans ht')
    obtain rfl := Option.some.inj (hu.symm.trans hu')
    rw [hcopy]
    simp [Draft.located, Draft.describe, Draft.withHandles, Entries.mapValues,
      Relation.withHandles, Relation.withoutTarget, Function.comp_def]
  simp only [Descriptor.withoutTargets, hdescribes.modelName, hdescribes'.modelName,
    hdescribes.tableName, hdescribes'.tableName, hdescribes.idColumn, hdescribes'.idColumn, hcopy,
    hschema, hrelations]

/-- A customer with an address, and with earlier addresses, which are found by the customer. -/
def addressesSchema : Fields :=
  let address : Value := .object [("$id", .text "address"), ("properties", .object
    [("visits", .object [("items", .object [("$id", .text "visit")])])])]
  [(.text "$id", .text "customer"), (.text "properties", .object
    [("home", address), ("earlier", .object [("items", address)])])]

/-- The address that was registered before its foreign key was asked for has it too, and in the same
place. -/
theorem compile_copies_addresses :
    ({} : Settings).IsValid ∧ addressesSchema.isKeyed = true ∧
      (compile (Binder.counting : Binder Nat Empty) {} (.map addressesSchema)).result =
        .ok [("visit", 2), ("address", 3), ("customer", 4)] ∧
      ∃ d d', (compile (Binder.counting : Binder Nat Empty) {} (.map addressesSchema)).tables[1]? =
          some d ∧
        (compile (Binder.counting : Binder Nat Empty) {} (.map addressesSchema)).tables[3]? =
          some d' ∧
        d.columns.keys = [.text "customer_id"] ∧
        (d.withoutTargets : Descriptor Unit) = d'.withoutTargets := by
  have hkeyed : addressesSchema.isKeyed = true := by decide
  have hok : (compile (Binder.counting : Binder Nat Empty) {} (.map addressesSchema)).result =
      .ok [("visit", 2), ("address", 3), ("customer", 4)] := by
    rfl
  obtain ⟨d, d', hd, hd', hcopies⟩ := compile_copies (Binder.counting : Binder Nat Empty)
    Settings.isValid_default hkeyed hok (i := 1) (j := 3) rfl rfl rfl
  refine ⟨Settings.isValid_default, hkeyed, hok, d, d', hd, hd', ?_, hcopies⟩
  obtain rfl := Option.some.inj (hd.symm.trans (rfl : _ = some _))
  rfl

end NestedTables
