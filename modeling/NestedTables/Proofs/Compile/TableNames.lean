import NestedTables.Proofs.Compile.Registration
import NestedTables.Proofs.Compile.Schemas
import NestedTables.Proofs.Compile.SharedColumns
import NestedTables.Proofs.Override.JoinTable

/-!
# The tables that the rules count on

The rules for joins look up join tables among the names of the tables of the schema, before any
table has been registered. These are the names under which the tables are handed over later, and
under which they are registered when the compilation gives a result. So a relation that goes
through a join table goes through one table that is there (`compile_tableNames`).

The rules and the walk go through the schema each in its own way. What they have in common is that
the tables of a walk are the visited nodes that are tables (`Tree.map_tablesFrom_perm`), and that
both find the name of a table in the same place.
-/

namespace NestedTables

variable {η ε α β : Type} {settings : Settings} {schema : Fields}

/-- The names of the tables, read off the tables in the order of the walk. -/
theorem Fields.mem_tableNames_iff_tables {name : String} :
    name ∈ schema.tableNames settings ↔ ∃ t ∈ (Tree.ofFields schema).tables,
      t.2.fields.tableName? settings = some (.text name) := by
  have hperm := Tree.map_tablesFrom_perm [] (Tree.ofFields schema)
  rw [mem_tableNames_iff]
  constructor
  · rintro ⟨node, ⟨p, hp⟩, htable, hname⟩
    have hmem : (p, node) ∈ (Tree.nodesFrom [] (Tree.ofFields schema)).filter fun n => n.2.isTable :=
      List.mem_filter.mpr ⟨hp, htable⟩
    obtain ⟨t, ht, heq⟩ := List.mem_map.mp (hperm.mem_iff.mpr hmem)
    obtain ⟨-, rfl⟩ := Prod.mk.inj heq
    exact ⟨t, ht, hname⟩
  · rintro ⟨t, ht, hname⟩
    have hmem := hperm.mem_iff.mp (List.mem_map.mpr ⟨t, ht, rfl⟩)
    exact ⟨t.2.fields, Tree.walked_of_mem_tables ht, (List.mem_filter.mp hmem).2, hname⟩

/-- A name that is a text is read as it is. -/
theorem Walk.tableName_of_identity {node : Fields} {i : Walk.Identity} {name : String}
    (h : Walk.identity settings node = .ok i) (hname : node.tableName? settings = some (.text name)) :
    i.tableName = name := by
  obtain ⟨⟨model, table, column⟩, hread, rfl⟩ := Reading.map_eq_ok_iff.mp h
  obtain ⟨-, hrest⟩ := Reading.both_eq_ok_iff.mp hread
  obtain ⟨htable, -⟩ := Reading.both_eq_ok_iff.mp hrest
  rw [Reading.under_eq_ok_iff, hname, Option.getD_some, Reading.text_eq_ok_iff rfl] at htable
  simpa [eq_comm] using htable.1

/-- When the rules have found no error, the tables that are handed over have the names that the
rules know. -/
theorem mem_tableNames_iff_handed (hvalid : (Override.checkAll settings schema).isValid = true)
    {calls : List (Handover η ε)}
    (hnamed : List.Forall₂ (Walk.Named settings) (Tree.ofFields schema).tables calls)
    {name : String} :
    name ∈ schema.tableNames settings ↔ ∃ c ∈ calls, c.table.tableName = name := by
  rw [Fields.mem_tableNames_iff_tables]
  constructor
  · rintro ⟨t, ht, hname⟩
    obtain ⟨c, hc, -, hidentity⟩ := exists_mem_of_forall₂_left hnamed ht
    exact ⟨c, hc, Walk.tableName_of_identity hidentity hname⟩
  · rintro ⟨c, hc, rfl⟩
    obtain ⟨t, ht, htable, hidentity⟩ := exists_mem_of_forall₂_left hnamed.flip hc
    have hnode := Override.isValid_iff_noErrors.mp hvalid _ (Tree.walked_of_mem_tables ht)
    obtain ⟨s, hs, -⟩ := Override.exists_name hnode htable (Or.inl rfl)
    have hname : c.table.tableName = s := Walk.tableName_of_identity hidentity hs
    exact ⟨t, ht, hname ▸ hs⟩

/-- What is handed over in a compilation that gives a result is what is registered. -/
theorem HandedOver.map_identity_tables {binder : Binder η ε} {calls : List (Handover η ε)}
    (h : HandedOver binder settings schema calls) {models : Entries String η}
    (hok : (compile binder settings (.map schema)).result = .ok models) :
    (compile binder settings (.map schema)).tables.map Descriptor.identity =
      calls.map fun c => c.table.identity := by
  have htaken : calls.filter Handover.taken = calls := by
    refine List.filter_eq_self.mpr fun c hc => ?_
    obtain ⟨done, later, hcalls⟩ := List.append_of_mem hc
    obtain ⟨handle, hanswer, -⟩ := (h.result models hok).2.2 done c later hcalls
    exact Handover.taken_of_ok hanswer
  rw [h.tables, htaken]

/-- The join table of a relation is the one that an array of the schema names. -/
theorem Site.exists_through {setting : Walk.Setting η ε} {owner : Context} {s : Site} {t : Through}
    (h : (s.relation setting owner : Relation Unit).through = some t) :
    ∃ v, setting.settings.override? .joinThrough s.child.fields = some v ∧
      Through.ofValue v = .ok t := by
  unfold relation at h
  split at h
  · simp at h
  · simp only [] at h
    split at h
    · next t' hjoin =>
      obtain rfl := Option.some.inj h
      unfold Fields.join at hjoin
      split at hjoin
      · simp at hjoin
      · next t'' _ hthrough =>
        obtain rfl := Walk.Join.through.inj hjoin
        obtain ⟨v, hv, hread⟩ := Option.bind_eq_some_iff.mp hthrough
        refine ⟨v, hv, ?_⟩
        cases hok : Through.ofValue v with
        | ok t => rw [hok] at hread; exact congrArg Except.ok (Option.some.inj hread)
        | error ps => rw [hok] at hread; simp [Except.toOption] at hread
      · simp at hjoin
    · simp at h

/-- A relation of a registered table is that of one of the sites of the table. -/
theorem Descriptor.Describes.exists_site {setting : Walk.Setting η ε} {table : Tree}
    {d : Descriptor η} (h : d.Describes setting table) {e : String × Relation η}
    (he : e ∈ d.relations) :
    ∃ s ∈ table.sites, s.name = e.1 ∧
      s.relation setting (table.context setting.settings) = e.2.withoutTarget (θ := Unit) := by
  have hmem : (e.1, e.2.withoutTarget) ∈
      (d.relations.mapValues Relation.withoutTarget : Entries String (Relation Unit)) :=
    List.mem_map.mpr ⟨e, he, rfl⟩
  obtain ⟨s, hs, heq⟩ := List.mem_map.mp (h.relations.mem_iff.mp hmem)
  exact ⟨s, hs, (Prod.mk.inj heq).1, (Prod.mk.inj heq).2⟩

section Described

variable {binder : Binder η ε} {models : Entries String η}

/-- A registered table describes the table in its place. -/
theorem exists_described (hset : settings.IsValid) (hkeyed : schema.isKeyed = true)
    (hok : (compile binder settings (.map schema)).result = .ok models) {i : Nat}
    {d : Descriptor η} (hd : (compile binder settings (.map schema)).tables[i]? = some d) :
    ∃ t, (Tree.ofFields schema).tables[i]? = some t ∧
      d.Describes (⟨settings, binder⟩ : Walk.Setting η ε) t.2 := by
  have hlt : i < (Tree.ofFields schema).tables.length := by
    rw [length_tables_of_result_eq_ok hset hkeyed hok]
    exact (List.getElem?_eq_some_iff.mp hd).1
  have ht := List.getElem?_eq_getElem hlt
  exact ⟨_, ht, describes_of_result_eq_ok hset hkeyed hok ht hd⟩

/-- Every table of the schema is described. -/
theorem exists_describing (hset : settings.IsValid) (hkeyed : schema.isKeyed = true)
    (hok : (compile binder settings (.map schema)).result = .ok models) {i : Nat}
    {t : Pointer × Tree} (ht : (Tree.ofFields schema).tables[i]? = some t) :
    ∃ d, (compile binder settings (.map schema)).tables[i]? = some d ∧
      d.Describes (⟨settings, binder⟩ : Walk.Setting η ε) t.2 := by
  have hlt : i < (compile binder settings (.map schema)).tables.length := by
    rw [← length_tables_of_result_eq_ok hset hkeyed hok]
    exact (List.getElem?_eq_some_iff.mp ht).1
  have hd := List.getElem?_eq_getElem hlt
  exact ⟨_, hd, describes_of_result_eq_ok hset hkeyed hok ht hd⟩

end Described

/-- The join table of a registered relation is one that the rules have accepted. -/
theorem exists_reference_of_through (hset : settings.IsValid) (hkeyed : schema.isKeyed = true)
    {binder : Binder η ε} {models : Entries String η}
    (hok : (compile binder settings (.map schema)).result = .ok models) {d : Descriptor η}
    (hd : d ∈ (compile binder settings (.map schema)).tables) {e : String × Relation η}
    (he : e ∈ d.relations) {t : Through} (ht : e.2.through = some t) :
    ∃ source target, ColumnRef.ofText? t.source = some source ∧
      ColumnRef.ofText? t.target = some target ∧ source.table = target.table ∧
      source.table ∈ schema.tableNames settings := by
  obtain ⟨i, hi⟩ := List.getElem?_of_mem hd
  obtain ⟨u, hu, hdescribes⟩ := exists_described hset hkeyed hok hi
  obtain ⟨s, hs, -, hrelation⟩ := hdescribes.exists_site he
  -- the relation is that of an array, whose override has been checked
  obtain ⟨v, hv, hread⟩ := Site.exists_through ((congrArg Relation.through hrelation).trans ht)
  have hnode := Override.isValid_iff_noErrors.mp (isValid_of_result_eq_ok binder hok) _
    (Tree.walked_of_mem_sites hkeyed (List.mem_of_getElem? hu) hs)
  obtain ⟨t', ht', href⟩ := Override.throughComplaint?_eq_none.mp (hnode.through v hv)
  obtain rfl := Except.ok.inj (hread.symm.trans ht')
  exact href

/-- **The rules and the walk agree on the tables.** In a compilation that gives a result the names
that the rules know are those of the tables that are handed over, and those of the registered
tables. So the two ends of every join table are references into one table that is registered. -/
theorem compile_tableNames (binder : Binder η ε) (hset : settings.IsValid)
    (hkeyed : schema.isKeyed = true) {models : Entries String η}
    (hok : (compile binder settings (.map schema)).result = .ok models) :
    let outcome := compile binder settings (.map schema)
    (∃ calls, HandedOver binder settings schema calls ∧
      ∀ name, name ∈ schema.tableNames settings ↔ ∃ c ∈ calls, c.table.tableName = name) ∧
    (∀ name, name ∈ schema.tableNames settings ↔ ∃ d ∈ outcome.tables, d.tableName = name) ∧
    ∀ d ∈ outcome.tables, ∀ e ∈ d.relations, ∀ t, e.2.through = some t →
      ∃ source target : ColumnRef, t.source = source.written ∧ t.target = target.written ∧
        ColumnRef.IsPart source.table ∧ ColumnRef.IsPart source.column ∧
        ColumnRef.IsPart target.table ∧ ColumnRef.IsPart target.column ∧
        source.table = target.table ∧
        ∃ joined ∈ outcome.tables, joined.tableName = source.table := by
  have hvalid := isValid_of_result_eq_ok binder hok
  obtain ⟨calls, hmakes⟩ := Walk.hands_visit (⟨settings, binder⟩ : Walk.Setting η ε) none none []
    (Tree.ofFields schema) { log := checkLog settings schema }
  have hhanded : HandedOver binder settings schema calls :=
    .of_makes (refusal?_eq_none_iff.mpr hvalid) hmakes
  have hcalls : ∀ name, name ∈ schema.tableNames settings ↔
      ∃ c ∈ calls, c.table.tableName = name :=
    fun name => mem_tableNames_iff_handed hvalid (hhanded.result models hok).1
  have htables : ∀ name, name ∈ schema.tableNames settings ↔
      ∃ d ∈ (compile binder settings (.map schema)).tables, d.tableName = name := by
    intro name
    have hnames := congrArg (List.map Walk.Identity.tableName) (hhanded.map_identity_tables hok)
    rw [List.map_map, List.map_map] at hnames
    rw [hcalls, ← List.mem_map, ← List.mem_map]
    exact (congrArg (name ∈ ·) hnames).symm.to_iff
  refine ⟨⟨calls, hhanded, hcalls⟩, htables, fun d hd e he t ht => ?_⟩
  obtain ⟨source, target, hsource, htarget, heq, hmem⟩ :=
    exists_reference_of_through hset hkeyed hok hd he ht
  obtain ⟨hsource, hsourceTable, hsourceColumn⟩ := (ColumnRef.ofText?_eq_some_iff ..).mp hsource
  obtain ⟨htarget, htargetTable, htargetColumn⟩ := (ColumnRef.ofText?_eq_some_iff ..).mp htarget
  exact ⟨source, target, hsource, htarget, hsourceTable, hsourceColumn, htargetTable, htargetColumn,
    heq, (htables _).mp hmem⟩

/-- Pupils and subjects, which are joined through the rows of a table that stands in the schema
after the array that names it. -/
def pupilSchema : Fields :=
  [(.text "$id", .text "pupil"), (.text "properties", .object
    [("subjects", .object [("items", .object [("$id", .text "subject")]),
        ("x-relschema-join-through", .object
          [("from", .text "lesson.pupil"), ("to", .text "lesson.subject")])]),
      ("lesson", .object [("$id", .text "l"), ("title", .text "lesson")])])]

/-- The schema of pupils compiles, and its join table is registered. -/
theorem compile_tableNames_pupil :
    ({} : Settings).IsValid ∧ pupilSchema.isKeyed = true ∧
      (compile (Binder.counting : Binder Nat Empty) {} (.map pupilSchema)).result =
        .ok [("subject", 0), ("lesson", 1), ("pupil", 2)] ∧
      ∃ joined ∈ (compile (Binder.counting : Binder Nat Empty) {} (.map pupilSchema)).tables,
        joined.tableName = "lesson" := by
  have hkeyed : pupilSchema.isKeyed = true := by decide
  have hok : (compile (Binder.counting : Binder Nat Empty) {} (.map pupilSchema)).result =
      .ok [("subject", 0), ("lesson", 1), ("pupil", 2)] := by
    rfl
  refine ⟨Settings.isValid_default, hkeyed, hok, ?_⟩
  exact ((compile_tableNames Binder.counting Settings.isValid_default hkeyed hok).2.1 "lesson").mp
    (by decide)

end NestedTables
