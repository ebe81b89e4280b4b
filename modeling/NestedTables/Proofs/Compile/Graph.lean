import NestedTables.Proofs.Compile.TableNames
import NestedTables.Proofs.Compile.Targets

/-!
# The graph of relations

A relation leads from the table that has it to the table whose handle it holds. When every table of
a compilation has been given a handle of its own, the relations are a forest over the tables of the
schema (`compile_graph`): to a table leads one relation, from the table that encloses it, if it is
reached from there through a property, and none otherwise.

Names do not tell this, since tables may have the same name. A table is known by its way in the
schema, and its handle is the one that the binder answered when the table was handed over
(`GivesOut`). That the relation of a site holds the handle at the end of its path has been shown
(`exists_place`); what is left is that ways are not confused.
-/

namespace NestedTables

variable {η ε : Type} {settings : Settings} {schema : Fields} {binder : Binder η ε}

/-! ### Handles of the tables of a compilation -/

/-- Whether these are the handles that the binder gives out in a compilation with a result, table by
table: those of the run that leads to the outcome, and each of them answered when the tables before
it had been registered. -/
structure GivesOut (binder : Binder η ε) (settings : Settings) (schema : Fields)
    (handles : List η) : Prop where
  run : ∃ s : Stage η,
    (Stage.start (checkLog settings schema)).Performs ⟨settings, binder⟩
      (compileActs binder settings schema) s ∧
    (compile binder settings (.map schema)).result = .ok s.registry.models ∧
    (compile binder settings (.map schema)).tables = s.registry.descriptors ∧ handles = s.handles
  length_eq : handles.length = (compile binder settings (.map schema)).tables.length
  answered : ∀ i handle, handles[i]? = some handle →
    ∃ before d, binder.create before d = .ok handle ∧
      before.map Descriptor.identity =
        ((compile binder settings (.map schema)).tables.take i).map Descriptor.identity ∧
      (compile binder settings (.map schema)).tables[i]?.map Descriptor.identity = some d.identity

/-- **A compilation with a result gives out a handle for every table.** -/
theorem exists_givesOut (hset : settings.IsValid) (hkeyed : schema.isKeyed = true)
    {models : Entries String η}
    (hok : (compile binder settings (.map schema)).result = .ok models) :
    ∃ handles, GivesOut binder settings schema handles := by
  obtain ⟨s, hperforms, hresult, htables, -⟩ := exists_finished binder hset hkeyed hok
  have hgives := hperforms.gives
  rw [← htables] at hgives
  exact ⟨s.handles, ⟨s, hperforms, hresult, htables, rfl⟩, hgives.length_eq, hgives.answered⟩

/-! ### The edges -/

/-- An edge of the graph: a relation of the table at a place, the way to that table and the site of
it that the relation is, and the place and the handle of the table that it leads to. -/
structure Edge (schema : Fields) (handles : List η) (i : Nat) (e : String × Relation η)
    (u : List Step) (table : Fields) (s : Site) (place : Nat) (handle : η) : Prop where
  down : schema.down? u = some table
  isTable : table.isTable = true
  source : (Tree.ofFields schema).tables[i]? = some (Pointer.ofWay u, Tree.ofFields table)
  site : s ∈ (Tree.ofFields table).sites
  name : s.name = e.1
  before : place < i
  target : (Tree.ofFields schema).tables[place]? =
    some (Pointer.ofWay (u ++ s.path), Tree.ofFields s.target)
  given : handles[place]? = some handle
  holds : e.2.target = some handle

/-- **Every relation of a registered table is an edge.** -/
theorem GivesOut.exists_edge {handles : List η} (h : GivesOut binder settings schema handles)
    (hkeyed : schema.isKeyed = true) {i : Nat} {d : Descriptor η}
    (hd : (compile binder settings (.map schema)).tables[i]? = some d) {e : String × Relation η}
    (he : e ∈ d.relations) :
    ∃ u table s place handle, Edge schema handles i e u table s place handle := by
  obtain ⟨stage, hperforms, -, htables, rfl⟩ := h.run
  have htargeted : Stage.Targeted ([] ++ compileActs binder settings schema) stage :=
    hperforms.targeted .nil
  rw [List.nil_append] at htargeted
  rw [htables] at hd
  obtain ⟨built, hbuilt, rfl⟩ := Registry.getElem?_descriptors hd
  obtain ⟨⟨r, j⟩, hr, hle, hrelations⟩ := exists_getElem?_of_forall₂ htargeted hbuilt
  rw [List.getElem?_zipIdx, Nat.zero_add, Option.map_eq_some_iff] at hr
  obtain ⟨r', hr, heq⟩ := hr
  obtain ⟨rfl, rfl⟩ := Prod.mk.inj heq
  obtain ⟨t, ht, hplaces⟩ := exists_place binder hkeyed hr
  obtain ⟨u, table, hdown, htable, rfl⟩ :=
    (Tree.mem_tables_iff_down? hkeyed).mp (List.mem_of_getElem? ht)
  -- the relation as it was registered, with a place for its target
  change e ∈ built.relations at he
  rw [hrelations] at he
  obtain ⟨e', he', rfl⟩ := List.mem_map.mp he
  obtain ⟨s, hs, hname, place, htarget, hlt, hplace⟩ := hplaces e' he'
  obtain ⟨handle, hhandle⟩ : ∃ handle, stage.handles[place]? = some handle :=
    ⟨_, List.getElem?_eq_getElem (by omega)⟩
  refine ⟨u, table, s, place, _, hdown, htable, ht, hs, hname, hlt, ?_, hhandle, ?_⟩
  · rw [hplace, Pointer.ofWay_append]
  · simp only [Relation.withHandles, htarget, Option.bind_some]
    rw [List.getElem?_take_of_lt hlt, hhandle]

variable {handles : List η} {i i' : Nat} {e e' : String × Relation η} {u u' : List Step}
  {table table' : Fields} {s s' : Site} {place place' : Nat} {handle handle' : η}

/-- A place is that of one pointer, and a pointer has one place. -/
theorem place_eq_of_pointer_eq (hkeyed : schema.isKeyed = true) {t t' : Pointer × Tree} {j j' : Nat}
    (h : (Tree.ofFields schema).tables[j]? = some t)
    (h' : (Tree.ofFields schema).tables[j']? = some t') (hpointer : t.1 = t'.1) : j = j' := by
  have hlt : j < ((Tree.ofFields schema).tables.map (·.1)).length := by
    rw [List.length_map]
    exact (List.getElem?_eq_some_iff.mp h).1
  refine (List.getElem?_inj hlt (Tree.nodup_pointers hkeyed)).mp ?_
  rw [List.getElem?_map, List.getElem?_map, h, h', Option.map_some, Option.map_some, hpointer]

/-- **Edges to one handle are one edge**: the way to the target tells the table that encloses it, and
the rest of that way the site. -/
theorem Edge.unique (hkeyed : schema.isKeyed = true) (hnodup : handles.Nodup)
    (h : Edge schema handles i e u table s place handle)
    (h' : Edge schema handles i' e' u' table' s' place' handle') (heq : handle = handle') :
    i = i' ∧ s = s' := by
  subst heq
  have hplace : place = place' :=
    (List.getElem?_inj (List.getElem?_eq_some_iff.mp h.given).1 hnodup).mp
      (h.given.trans h'.given.symm)
  subst hplace
  have hway : u ++ s.path = u' ++ s'.path :=
    Pointer.ofWay_injective (congrArg Prod.fst (Option.some.inj (h.target.symm.trans h'.target)))
  have hencloses := (Fields.encloses_of_site hkeyed h.down h.isTable h.site).1
  have hencloses' := (Fields.encloses_of_site hkeyed h'.down h'.isTable h'.site).1
  obtain rfl := hencloses.unique (hway ▸ hencloses')
  obtain rfl := Option.some.inj (h.down.symm.trans h'.down)
  refine ⟨place_eq_of_pointer_eq hkeyed h.source h'.source rfl, ?_⟩
  exact Site.path_injOn (Fields.isKeyed_of_down? hkeyed h.down) h.site h'.site
    (List.append_cancel_left hway)

/-- The relation of an edge is known by the place of its table and the handle that it holds. -/
theorem GivesOut.eq_of_target_eq (h : GivesOut binder settings schema handles)
    (hset : settings.IsValid) (hkeyed : schema.isKeyed = true) (hnodup : handles.Nodup)
    {models : Entries String η}
    (hok : (compile binder settings (.map schema)).result = .ok models) {d d' : Descriptor η}
    (hd : (compile binder settings (.map schema)).tables[i]? = some d) (he : e ∈ d.relations)
    (hd' : (compile binder settings (.map schema)).tables[i']? = some d') (he' : e' ∈ d'.relations)
    (htarget : e.2.target = e'.2.target) : i = i' ∧ e = e' := by
  obtain ⟨u, table, s, place, handle, hedge⟩ := h.exists_edge hkeyed hd he
  obtain ⟨u', table', s', place', handle', hedge'⟩ := h.exists_edge hkeyed hd' he'
  have hhandle : handle = handle' :=
    Option.some.inj (hedge.holds.symm.trans (htarget.trans hedge'.holds))
  obtain ⟨rfl, rfl⟩ := hedge.unique hkeyed hnodup hedge' hhandle
  obtain rfl := Option.some.inj (hd.symm.trans hd')
  have hdistinct := (describes_of_result_eq_ok hset hkeyed hok hedge.source hd).distinct
  refine ⟨rfl, Prod.ext (hedge.name.symm.trans hedge'.name) ?_⟩
  have hget := Entries.get?_eq_some_of_mem hdistinct (k := e.1) (v := e.2) he
  have hget' := Entries.get?_eq_some_of_mem hdistinct (k := e'.1) (v := e'.2) he'
  rw [← hedge.name, hedge'.name] at hget
  exact Option.some.inj (hget.symm.trans hget')

/-- Sites of a described table are known by their names. -/
theorem Descriptor.Describes.site_eq {setting : Walk.Setting η ε} {table : Tree} {d : Descriptor η}
    (h : d.Describes setting table) (hs : s ∈ table.sites) (hs' : s' ∈ table.sites)
    (hname : s.name = s'.name) : s = s' := by
  have hkeys := h.relations.map Prod.fst
  have hsame : (d.relations.mapValues Relation.withoutTarget :
      Entries String (Relation Unit)).map Prod.fst = Entries.keys d.relations :=
    Entries.keys_mapValues _ _
  rw [hsame, List.map_map] at hkeys
  exact List.inj_on_of_nodup_map (hkeys.nodup_iff.mp h.distinct) hs hs' hname

/-- The relation of a site is there. -/
theorem Descriptor.Describes.exists_relation {setting : Walk.Setting η ε} {table : Tree}
    {d : Descriptor η} (h : d.Describes setting table) (hs : s ∈ table.sites) :
    ∃ e ∈ d.relations, e.1 = s.name ∧
      s.relation setting (table.context setting.settings) = e.2.withoutTarget (θ := Unit) := by
  have hmem := h.relations.mem_iff.mpr (List.mem_map.mpr ⟨s, hs, rfl⟩)
  obtain ⟨e, he, heq⟩ := List.mem_map.mp hmem
  exact ⟨e, he, (Prod.mk.inj heq).1, (Prod.mk.inj heq).2.symm⟩

@[simp] theorem Site.relation_targetTable (setting : Walk.Setting η ε) (owner : Context) (s : Site) :
    (s.relation setting owner : Relation Unit).targetTable =
      (s.target.names setting.settings).tableName := by
  unfold relation
  split <;> rfl

/-! ### The forest -/

/-- What the relations of some tables lead to, in the order of the tables. -/
def relationTargets (tables : List (Descriptor η)) : List (Option η) :=
  tables.flatMap fun d => d.relations.map fun e => e.2.target

/-- The place of the table at the end of a way among the tables of a schema. -/
def Fields.PlacedAt (schema : Fields) (w : List Step) (i : Nat) : Prop :=
  ((Tree.ofFields schema).tables.map (·.1))[i]? = some (Pointer.ofWay w)

/-- Whether the relations of the registered tables are a forest over the tables of a schema, whose
handles are these, by place. -/
structure IsForest (settings : Settings) (schema : Fields) (tables : List (Descriptor η))
    (handles : List η) : Prop where
  /-- Every relation leads to a table. -/
  given : ∀ target ∈ relationTargets tables, ∃ handle ∈ handles, target = some handle
  /-- No two relations lead to the same one. -/
  nodup : (relationTargets tables).Nodup
  /-- To a table that another one encloses, and that is reached, leads one relation. It is that
  other table's, it has the name of the table, and the table has been registered before. -/
  related : ∀ w c, schema.down? w = some c → c.isTable = true → ∀ u, schema.Encloses u w →
    schema.IsReached w → ∃ j i handle d e, schema.PlacedAt w j ∧ schema.PlacedAt u i ∧ j < i ∧
      handles[j]? = some handle ∧ tables[i]? = some d ∧ e ∈ d.relations ∧
      e.2.target = some handle ∧ c.tableName? settings = some (.text e.2.targetTable) ∧
      ∀ i' d' e', tables[i']? = some d' → e' ∈ d'.relations → e'.2.target = some handle →
        i' = i ∧ e' = e
  /-- To any other table leads none. -/
  unrelated : ∀ w c, schema.down? w = some c → c.isTable = true →
    ¬ ((∃ u, schema.Encloses u w) ∧ schema.IsReached w) →
      ∃ j handle, schema.PlacedAt w j ∧ handles[j]? = some handle ∧
        some handle ∉ relationTargets tables

theorem mem_relationTargets {tables : List (Descriptor η)} {target : Option η} :
    target ∈ relationTargets tables ↔
      ∃ (i : Nat) (d : Descriptor η), tables[i]? = some d ∧ ∃ e ∈ d.relations, e.2.target = target := by
  simp only [relationTargets, List.mem_flatMap, List.mem_map]
  constructor
  · rintro ⟨d, hd, hmem⟩
    obtain ⟨i, hi⟩ := List.getElem?_of_mem hd
    exact ⟨i, d, hi, hmem⟩
  · rintro ⟨i, d, hi, hmem⟩
    exact ⟨d, List.mem_of_getElem? hi, hmem⟩

/-- The targets are different when no two relations have the same. -/
theorem nodup_relationTargets {tables : List (Descriptor η)}
    (hdistinct : ∀ d ∈ tables, Entries.Distinct d.relations)
    (h : ∀ (i i' : Nat) (d d' : Descriptor η) (e e' : String × Relation η), tables[i]? = some d →
      e ∈ d.relations → tables[i']? = some d' → e' ∈ d'.relations →
        e.2.target = e'.2.target → i = i' ∧ e = e') : (relationTargets tables).Nodup := by
  rw [relationTargets, List.nodup_flatMap]
  refine ⟨fun d hd => ?_, List.pairwise_iff_getElem.mpr fun i i' hi hi' hlt => ?_⟩
  · obtain ⟨i, hi⟩ := List.getElem?_of_mem hd
    have hrelations : d.relations.Nodup := List.Nodup.of_map _ (hdistinct d hd)
    exact hrelations.map_on fun e he e' he' heq => (h i i d d e e' hi he hi he' heq).2
  · intro target ht ht'
    obtain ⟨e, he, rfl⟩ := List.mem_map.mp ht
    obtain ⟨e', he', heq⟩ := List.mem_map.mp ht'
    have := (h i i' _ _ e e' (List.getElem?_eq_getElem hi) he (List.getElem?_eq_getElem hi') he'
      heq.symm).1
    omega

/-- The place and the handle of the table at the end of a way. -/
theorem GivesOut.exists_handle (h : GivesOut binder settings schema handles)
    (hset : settings.IsValid) (hkeyed : schema.isKeyed = true) {models : Entries String η}
    (hok : (compile binder settings (.map schema)).result = .ok models) {w : List Step} {c : Fields}
    (hc : schema.down? w = some c) (hcTable : c.isTable = true) :
    ∃ (j : Nat) (handle : η),
      (Tree.ofFields schema).tables[j]? = some (Pointer.ofWay w, Tree.ofFields c) ∧
      handles[j]? = some handle := by
  obtain ⟨j, hj⟩ := List.getElem?_of_mem
    ((Tree.mem_tables_iff_down? hkeyed).mpr ⟨w, c, hc, hcTable, rfl⟩)
  have hlt : j < handles.length := by
    rw [h.length_eq, ← length_tables_of_result_eq_ok hset hkeyed hok]
    exact (List.getElem?_eq_some_iff.mp hj).1
  exact ⟨j, _, hj, List.getElem?_eq_getElem hlt⟩

theorem Fields.placedAt_of_getElem? {schema c : Fields} {w : List Step} {j : Nat}
    (h : (Tree.ofFields schema).tables[j]? = some (Pointer.ofWay w, Tree.ofFields c)) :
    schema.PlacedAt w j := by
  rw [PlacedAt, List.getElem?_map, h]
  rfl

/-- An edge to the table at the end of a way is on that way. -/
theorem Edge.way_eq {w : List Step} {c : Fields} {j : Nat} (hnodup : handles.Nodup)
    (h : Edge schema handles i e u table s place handle)
    (hj : (Tree.ofFields schema).tables[j]? = some (Pointer.ofWay w, Tree.ofFields c))
    (hhandle : handles[j]? = some handle) : w = u ++ s.path := by
  obtain rfl : place = j :=
    (List.getElem?_inj (List.getElem?_eq_some_iff.mp h.given).1 hnodup).mp
      (h.given.trans hhandle.symm)
  exact Pointer.ofWay_injective (congrArg Prod.fst (Option.some.inj (hj.symm.trans h.target)))

/-- **The relation to a table that is enclosed and reached.** -/
theorem GivesOut.exists_relation_to (h : GivesOut binder settings schema handles)
    (hset : settings.IsValid) (hkeyed : schema.isKeyed = true) {models : Entries String η}
    (hok : (compile binder settings (.map schema)).result = .ok models) {w : List Step} {c : Fields}
    (hc : schema.down? w = some c) (hcTable : c.isTable = true) (hencloses : schema.Encloses u w)
    (hreached : schema.IsReached w) :
    ∃ (j i : Nat) (handle : η) (d : Descriptor η) (e : String × Relation η),
      schema.PlacedAt w j ∧ schema.PlacedAt u i ∧ j < i ∧ handles[j]? = some handle ∧
      (compile binder settings (.map schema)).tables[i]? = some d ∧ e ∈ d.relations ∧
      e.2.target = some handle ∧ c.tableName? settings = some (.text e.2.targetTable) := by
  obtain ⟨table, between, last, hdown, htable, hclear, rfl⟩ := hencloses
  obtain ⟨s, hs, hway⟩ := (Fields.exists_site_iff hkeyed hdown htable hc hcTable).mpr
    ⟨⟨table, between, last, hdown, htable, hclear, rfl⟩, hreached⟩
  obtain ⟨i, -, hi, -⟩ := h.exists_handle hset hkeyed hok hdown htable
  obtain ⟨d, hd, hdescribes⟩ := exists_describing hset hkeyed hok hi
  obtain ⟨e, he, hname, hrelation⟩ := hdescribes.exists_relation hs
  -- the relation of this name is an edge, and its site is the one of this name
  obtain ⟨u', table', s', place, handle, hedge⟩ := h.exists_edge hkeyed hd he
  have hsource := Option.some.inj (hi.symm.trans hedge.source)
  obtain rfl := Pointer.ofWay_injective (congrArg Prod.fst hsource)
  obtain rfl := Option.some.inj (hdown.symm.trans hedge.down)
  obtain rfl : s = s' := hdescribes.site_eq hs hedge.site (hname.symm.trans hedge.name.symm)
  have htarget : s.target = c := by
    have hpath := (Site.down?_path (Fields.isKeyed_of_down? hkeyed hdown) hs).1
    rw [hway, Fields.down?_append, hdown, Option.bind_some, hpath] at hc
    exact Option.some.inj hc
  refine ⟨place, i, handle, _, e, ?_, Fields.placedAt_of_getElem? hi, hedge.before, hedge.given, hd,
    he, hedge.holds, ?_⟩
  · rw [hway]
    exact Fields.placedAt_of_getElem? hedge.target
  · have hwalked := (Fields.walked_iff_down? hkeyed).mpr ⟨_, hc⟩
    obtain ⟨name, hname, -⟩ := Override.exists_name (Override.isValid_iff_noErrors.mp
      (isValid_of_result_eq_ok binder hok) c hwalked) hcTable (Or.inl rfl)
    have htable : e.2.targetTable = (c.names settings).tableName := by
      have := congrArg Relation.targetTable hrelation
      rw [Site.relation_targetTable, htarget] at this
      exact this.symm
    have htableName : c.tableName? settings = some (.text name) := hname
    rw [htable, Fields.names, htableName]
    rfl

/-- **The relations of a compiled schema are a forest** over its tables, if the binder has given a
handle of its own to each of them. -/
theorem compile_graph (binder : Binder η ε) (hset : settings.IsValid)
    (hkeyed : schema.isKeyed = true) {models : Entries String η}
    (hok : (compile binder settings (.map schema)).result = .ok models) :
    (∀ c, schema.Walked c ↔ ∃ w, schema.down? w = some c) ∧
    ∃ handles, GivesOut binder settings schema handles ∧ (handles.Nodup →
      IsForest settings schema (compile binder settings (.map schema)).tables handles) := by
  refine ⟨fun c => Fields.walked_iff_down? hkeyed, ?_⟩
  obtain ⟨handles, h⟩ := exists_givesOut hset hkeyed hok
  refine ⟨handles, h, fun hnodup => ⟨fun target ht => ?_, ?_, ?_, ?_⟩⟩
  · obtain ⟨i, d, hd, e, he, rfl⟩ := mem_relationTargets.mp ht
    obtain ⟨u, table, s, place, handle, hedge⟩ := h.exists_edge hkeyed hd he
    exact ⟨handle, List.mem_of_getElem? hedge.given, hedge.holds⟩
  · refine nodup_relationTargets (fun d hd => ?_) fun i i' d d' e e' hd he hd' he' htarget =>
      h.eq_of_target_eq hset hkeyed hnodup hok hd he hd' he' htarget
    obtain ⟨i, hi⟩ := List.getElem?_of_mem hd
    obtain ⟨t, -, hdescribes⟩ := exists_described hset hkeyed hok hi
    exact hdescribes.distinct
  · intro w c hc hcTable u hencloses hreached
    obtain ⟨j, i, handle, d, e, hj, hi, hlt, hhandle, hd, he, htarget, hname⟩ :=
      h.exists_relation_to hset hkeyed hok hc hcTable hencloses hreached
    refine ⟨j, i, handle, d, e, hj, hi, hlt, hhandle, hd, he, htarget, hname, ?_⟩
    exact fun i' d' e' hd' he' htarget' => h.eq_of_target_eq hset hkeyed hnodup hok hd' he' hd he
      (htarget'.trans htarget.symm)
  · intro w c hc hcTable hnone
    obtain ⟨j, handle, hj, hhandle⟩ := h.exists_handle hset hkeyed hok hc hcTable
    refine ⟨j, handle, Fields.placedAt_of_getElem? hj, hhandle, fun hmem => hnone ?_⟩
    obtain ⟨i, d, hd, e, he, htarget⟩ := mem_relationTargets.mp hmem
    obtain ⟨u, table, s, place, handle', hedge⟩ := h.exists_edge hkeyed hd he
    obtain rfl := Option.some.inj (htarget.symm.trans hedge.holds)
    obtain rfl := hedge.way_eq hnodup hj hhandle
    obtain ⟨hencloses, hreached⟩ :=
      Fields.encloses_of_site hkeyed hedge.down hedge.isTable hedge.site
    exact ⟨⟨u, hencloses⟩, hreached⟩

/-- The counting binder gives every table a handle of its own. -/
theorem GivesOut.nodup_of_counting {handles : List Nat}
    (h : GivesOut (Binder.counting : Binder Nat ε) settings schema handles) : handles.Nodup := by
  have hplace : ∀ (i : Nat) handle, handles[i]? = some handle → handle = i := by
    intro i handle hhandle
    obtain ⟨before, d, hcreate, hbefore, -⟩ := h.answered i handle hhandle
    have hlength := congrArg List.length hbefore
    have hlt := (List.getElem?_eq_some_iff.mp hhandle).1
    rw [h.length_eq] at hlt
    rw [List.length_map, List.length_map, List.length_take] at hlength
    obtain rfl : 0 + before.length = handle := Except.ok.inj hcreate
    omega
  rw [List.nodup_iff_getElem?_ne_getElem?]
  intro i j hij hj heq
  have hi := List.getElem?_eq_getElem (Nat.lt_trans hij hj)
  have := (hplace i _ hi).symm.trans (hplace j _ (heq ▸ hi))
  omega

/-- An order with two addresses, which are tables of the same name. -/
def shipmentSchema : Fields :=
  [(.text "$id", .text "shipment"), (.text "properties", .object
    [("from", .object [("$id", .text "address")]), ("to", .object [("$id", .text "address")])])]

/-- The two relations of a shipment lead to different tables. -/
theorem compile_graph_shipment :
    ({} : Settings).IsValid ∧ shipmentSchema.isKeyed = true ∧
      (compile (Binder.counting : Binder Nat Empty) {} (.map shipmentSchema)).result =
        .ok [("address", 1), ("shipment", 2)] ∧
      ∃ handles, handles.Nodup ∧ IsForest {} shipmentSchema
        (compile (Binder.counting : Binder Nat Empty) {} (.map shipmentSchema)).tables handles := by
  have hkeyed : shipmentSchema.isKeyed = true := by decide
  have hok : (compile (Binder.counting : Binder Nat Empty) {} (.map shipmentSchema)).result =
      .ok [("address", 1), ("shipment", 2)] := by
    rfl
  obtain ⟨-, handles, hgives, hforest⟩ :=
    compile_graph (Binder.counting : Binder Nat Empty) Settings.isValid_default hkeyed hok
  exact ⟨Settings.isValid_default, hkeyed, hok, handles, hgives.nodup_of_counting,
    hforest hgives.nodup_of_counting⟩

end NestedTables
