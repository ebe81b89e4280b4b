import NestedTables.Proofs.Compile.Exact
import NestedTables.Proofs.Compile.TableNames
import NestedTables.Proofs.Relational.State
import NestedTables.Proofs.Schema.Way

/-!
# Compiled descriptors are read again

A compilation does not read the descriptors that it makes from documents, but it makes none that
could not have been read. Names of tables are read as texts that are not empty, and so is the column
that an array names for its join; a join table is read as one. Since every relation is that of a
site, and a site leads to a table of the schema, all that a descriptor says of itself and of other
tables has been read (`Descriptor.Describes.isValid`). So a descriptor is the state of a record
like any other, and what lasts of these holds of it too (`records_last`).
-/

namespace NestedTables

variable {η θ ε : Type} {settings : Settings} {schema : Fields}

/-! ### What has been read -/

namespace Walk

theorem ne_empty_of_identity {node : Fields} {i : Identity} (h : identity settings node = .ok i) :
    i.modelName ≠ "" ∧ i.tableName ≠ "" ∧ i.idColumn ≠ "" := by
  obtain ⟨⟨model, table, column⟩, hread, rfl⟩ := Reading.map_eq_ok_iff.mp h
  obtain ⟨hmodel, hrest⟩ := Reading.both_eq_ok_iff.mp hread
  obtain ⟨htable, hcolumn⟩ := Reading.both_eq_ok_iff.mp hrest
  exact ⟨Reading.ne_empty_of_text (Reading.under_eq_ok_iff.mp hmodel),
    Reading.ne_empty_of_text (Reading.under_eq_ok_iff.mp htable),
    Reading.ne_empty_of_text (Reading.under_eq_ok_iff.mp hcolumn)⟩

/-- A join by a column that has a name, or through a valid join table. -/
def Join.IsValid : Join → Prop
  | .column ref => ref ≠ ""
  | .through t => t.IsValid
  | .foreignKey _ => True

theorem isValid_of_joinOf {ctx : Context} {array : Fields} {join : Join}
    (h : joinOf settings ctx array = .ok join) : join.IsValid := by
  unfold joinOf at h
  split at h
  · obtain ⟨ref, hread, rfl⟩ := Reading.map_eq_ok_iff.mp h
    exact Reading.ne_empty_of_text (Reading.under_eq_ok_iff.mp hread)
  · obtain rfl := Except.ok.inj h
    trivial
  · obtain rfl := Except.ok.inj h
    trivial
  · obtain ⟨t, hread, rfl⟩ := Reading.map_eq_ok_iff.mp h
    exact Through.isValid_of_ofValue hread

end Walk

theorem ColumnRef.written_ne (r : ColumnRef) : r.written ≠ "" := by
  intro h
  have hlist := congrArg String.toList h
  simp [written] at hlist

/-! ### Relations of sites -/

/-- A relation is valid with and without the handle of its target. -/
theorem Relation.isValid_withoutTarget {r : Relation η} :
    (r.withoutTarget : Relation θ).IsValid ↔ r.IsValid :=
  ⟨fun h => ⟨h.targetTable_ne, h.joinTo_ne, h.through⟩,
    fun h => ⟨h.targetTable_ne, h.joinTo_ne, h.through⟩⟩

/-- The relation at a site is valid if the names of its target and its join can be read. -/
theorem Site.isValid_relation {setting : Walk.Setting η ε} {owner : Context} {s : Site}
    (hchild : s.child.fields.Sound setting.settings)
    (htarget : Walk.identity setting.settings s.target =
      .ok (s.target.names setting.settings)) :
    (s.relation setting owner : Relation θ).IsValid := by
  have htable := (Walk.ne_empty_of_identity htarget).2.1
  have hpath : s.target.idPath setting.settings ≠ "" := ColumnRef.written_ne _
  have hjoin := Walk.isValid_of_joinOf (hchild.joinOf owner)
  unfold relation
  split
  · exact ⟨htable, hpath, by simp⟩
  · cases hcase : s.child.fields.join setting.settings owner.idPath with
    | column ref =>
      rw [hcase] at hjoin
      exact ⟨htable, hjoin, by simp⟩
    | through t =>
      rw [hcase] at hjoin
      exact ⟨htable, hpath, fun t' heq => Option.some.inj heq ▸ hjoin⟩
    | foreignKey column =>
      exact ⟨htable, ColumnRef.written_ne ⟨_, column⟩, by simp⟩

/-- A descriptor is valid if all that it describes can be read. -/
theorem Descriptor.Describes.isValid {setting : Walk.Setting η ε} {table : Tree}
    {d : Descriptor η} (h : d.Describes setting table)
    (htable : Walk.identity setting.settings table.fields =
      .ok (table.fields.names setting.settings))
    (hsites : ∀ s ∈ table.sites, s.child.fields.Sound setting.settings ∧
      Walk.identity setting.settings s.target = .ok (s.target.names setting.settings)) :
    d.IsValid := by
  obtain ⟨hmodel, hname, hcolumn⟩ := Walk.ne_empty_of_identity htable
  refine ⟨h.modelName ▸ hmodel, h.tableName ▸ hname, h.idColumn ▸ hcolumn, h.distinct,
    fun e he => ?_⟩
  obtain ⟨s, hs, -, hrelation⟩ := h.exists_site he
  obtain ⟨hchild, htarget⟩ := hsites s hs
  rw [← Relation.isValid_withoutTarget (θ := Unit), ← hrelation]
  exact Site.isValid_relation hchild htarget

/-! ### Compiled descriptors -/

section Compiled

variable {binder : Binder η ε} {models : Entries String η}

/-- **Every descriptor of a compilation that gives a result is valid.** -/
theorem isValid_of_mem_tables (hset : settings.IsValid) (hkeyed : schema.isKeyed = true)
    (hok : (compile binder settings (.map schema)).result = .ok models) {d : Descriptor η}
    (hd : d ∈ (compile binder settings (.map schema)).tables) : d.IsValid := by
  have hsound : ∀ node, schema.Walked node → node.Sound settings := fun node hnode =>
    Override.sound_of_isValid hset (isValid_of_result_eq_ok binder hok) hnode
  obtain ⟨i, hi⟩ := List.getElem?_of_mem hd
  obtain ⟨t, ht, hdescribes⟩ := exists_described hset hkeyed hok hi
  have hmem := List.mem_of_getElem? ht
  obtain ⟨way, table, hdown, htable, rfl⟩ := (Tree.mem_tables_iff_down? hkeyed).mp hmem
  refine hdescribes.isValid
    ((hsound _ (Tree.walked_of_mem_tables hmem)).identity htable) fun s hs => ?_
  -- a site leads on to a table of the schema
  obtain ⟨hpath, htarget, -⟩ := Site.down?_path (Fields.isKeyed_of_down? hkeyed hdown) hs
  have hwalked : schema.Walked s.target := (Fields.walked_iff_down? hkeyed).mpr
    ⟨way ++ s.path, by rw [Fields.down?_append, hdown]; exact hpath⟩
  exact ⟨hsound _ (Tree.walked_of_mem_sites hkeyed hmem hs), (hsound _ hwalked).identity htarget⟩

/-- A descriptor of a compilation of strict documents is read again. -/
theorem readAgain_of_mem_tables (hset : settings.IsValid)
    (hstrict : (⟨settings, binder⟩ : Walk.Setting η ε).IsTree Scalar.isStrict)
    (hschema : (Value.map schema).isStrict = true)
    (hok : (compile binder settings (.map schema)).result = .ok models) {d : Descriptor η}
    (hd : d ∈ (compile binder settings (.map schema)).tables) :
    ∃ document, d.dump.portable = .ok document ∧
      Descriptor.ofValue document = .ok d.withoutTargets := by
  have hdump : d.dump.isStrict = true :=
    (compile_trees Scalar.passesTexts_isStrict hstrict hschema).1 d hd
  have hvalid := isValid_of_mem_tables hset (Value.isKeyed_of_isTreeOf hschema) hok hd
  exact ⟨d.dump, Value.portable_of_isTreeOf (fun _ => Scalar.portable_of_isStrict) hdump,
    Descriptor.ofValue_dump hvalid hdump⟩

end Compiled

/-! ### All records -/

/-- **Records last.** Settings, join tables, relations and descriptors are valid whatever they are
read from and however they are changed; a change that is refused leaves them as they are. If no
document in them has infinite numbers, for which JSON has no form, they are read again from the
documents that they are written as, but for the handles of relations. No valid state is refused
then.

A compilation of such documents that gives a result makes descriptors of which the same holds. -/
theorem records_last :
    Settings.record.Lasts Settings.IsValid id ∧
    Through.record.Lasts Through.IsValid id ∧
    Relation.record.Lasts Relation.IsValid Relation.withoutTarget ∧
    Descriptor.record.Lasts Descriptor.IsValid Descriptor.withoutTargets ∧
    ∀ {η ε : Type} (binder : Binder η ε) {settings : Settings} {schema : Fields}
      {models : Entries String η}, settings.IsValid →
      (⟨settings, binder⟩ : Walk.Setting η ε).IsTree Scalar.isStrict →
      (Value.map schema).isStrict = true →
      (compile binder settings (.map schema)).result = .ok models →
      ∀ d ∈ (compile binder settings (.map schema)).tables, d.IsValid ∧
        ∃ document, d.dump.portable = .ok document ∧
          Descriptor.ofValue document = .ok d.withoutTargets :=
  ⟨Settings.sound_record.lasts, Through.sound_record.lasts, Relation.sound_record.lasts,
    Descriptor.sound_record.lasts, fun _ _ _ _ hset hstrict hschema hok _ hd =>
      ⟨isValid_of_mem_tables hset (Value.isKeyed_of_isTreeOf hschema) hok hd,
        readAgain_of_mem_tables hset hstrict hschema hok hd⟩⟩

/-- The descriptor of a table of lessons, which belong to pupils. -/
def lessonDocument : Value :=
  .object [("model_name", .text "lesson"), ("table_name", .text "lessons"),
    ("relations", .object [("pupil", .object [("kind", .text "one"),
      ("target_table", .text "pupils"), ("join_to", .text "pupils.id")])])]

/-- The relation to pupils refuses to be joined by nothing, and then the table gets a name. -/
def lessonChanges : List (Descriptor.Attribute × Value) :=
  [(.relation "pupil" (.own "join_to"), .text ""), (.own "table_name", .text "hours")]

/-- The descriptor of lessons lasts, and so do those of the schema of pupils. -/
theorem records_last_lesson :
    (∃ d, Descriptor.ofValue lessonDocument = .ok d ∧
      (Descriptor.record.after d lessonChanges).tableName = "hours" ∧
      (Descriptor.record.after d lessonChanges).IsValid ∧
      ∃ document, (Descriptor.record.after d lessonChanges).dump.portable = .ok document ∧
        Descriptor.ofValue document =
          .ok (Descriptor.record.after d lessonChanges).withoutTargets) ∧
    ({} : Settings).IsValid ∧
    (⟨{}, Binder.counting⟩ : Walk.Setting Nat Empty).IsTree Scalar.isStrict ∧
    (Value.map pupilSchema).isStrict = true ∧
    (compile (Binder.counting : Binder Nat Empty) {} (.map pupilSchema)).result =
      .ok [("subject", 0), ("lesson", 1), ("pupil", 2)] ∧
    ∀ d ∈ (compile (Binder.counting : Binder Nat Empty) {} (.map pupilSchema)).tables, d.IsValid ∧
      ∃ document, d.dump.portable = .ok document ∧
        Descriptor.ofValue document = .ok d.withoutTargets := by
  have hstrict : (⟨{}, Binder.counting⟩ : Walk.Setting Nat Empty).IsTree Scalar.isStrict := by
    constructor <;> rfl
  have hschema : (Value.map pupilSchema).isStrict = true := by decide
  have hok : (compile (Binder.counting : Binder Nat Empty) {} (.map pupilSchema)).result =
      .ok [("subject", 0), ("lesson", 1), ("pupil", 2)] := by
    rfl
  obtain ⟨-, -, -, hlasts, hcompiled⟩ := records_last
  refine ⟨⟨_, rfl, rfl, hlasts.valid lessonDocument _ lessonChanges rfl,
    hlasts.readAgain lessonDocument _ lessonChanges (by decide) (by decide) rfl⟩,
    Settings.isValid_default, hstrict, hschema, hok, ?_⟩
  exact hcompiled Binder.counting Settings.isValid_default hstrict hschema hok

end NestedTables
