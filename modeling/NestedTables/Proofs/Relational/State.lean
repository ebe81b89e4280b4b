import NestedTables.Proofs.Override.JoinTable
import NestedTables.Proofs.Record.Mapping
import NestedTables.Proofs.Record.State
import NestedTables.Proofs.Relational.Dumped
import NestedTables.Proofs.Schema.Settings

/-!
# The states of settings, join tables, relations and descriptors

For each of these records, what a valid state is, and that reading and changing one gives no other
(`Settings.sound_record`, `Through.sound_record`, `Relation.sound_record` and
`Descriptor.sound_record`). A valid state is read again from the document that it is written as.
Nothing but the handles of relations is lost, which are never written.

A descriptor has relations, and a relation may have a join table, so the lemmas build on each other
in this order. An attribute can also be one of the relations or of the join table inside; then the
record inside changes, and stays where it is (`Relation.setAt`, `Descriptor.setAt`). What a change
can be is listed once for each record, in `Sets`.
-/

namespace NestedTables

/-! ### Settings -/

namespace Settings

def record : Record String Settings where
  ofValue := ofValue
  set := set
  dump := dump

/-- Whether settings are written as a strict document. -/
def IsPlain (s : Settings) : Prop :=
  (Value.map s.foreignKey).isStrict = true

/-- Settings are read field by field. -/
theorem ofFields_eq_ok {es : Fields} {s : Settings} : ofFields es = .ok s ↔
    Reading.optional ["annotation_prefix"] ({} : Settings).overridePrefix readPrefix es =
        .ok s.overridePrefix ∧
      Reading.optional ["default_id_column"] ({} : Settings).idColumn (Reading.text 1) es =
        .ok s.idColumn ∧
      Reading.optional ["foreign_key_schema"] ({} : Settings).foreignKey Reading.fields es =
        .ok s.foreignKey ∧
      Reading.nothingElse fieldNames es = .ok () := by
  rw [ofFields, Reading.map_eq_ok_iff]
  constructor
  · rintro ⟨⟨overridePrefix, idColumn, foreignKey⟩, hread, rfl⟩
    obtain ⟨hboth, helse⟩ := Reading.checked_eq_ok_iff.mp hread
    obtain ⟨hbegin, hrest⟩ := Reading.both_eq_ok_iff.mp hboth
    obtain ⟨hcolumn, hforeign⟩ := Reading.both_eq_ok_iff.mp hrest
    exact ⟨hbegin, hcolumn, hforeign, helse⟩
  · rintro ⟨hbegin, hcolumn, hforeign, helse⟩
    exact ⟨(s.overridePrefix, s.idColumn, s.foreignKey), Reading.checked_eq_ok_iff.mpr
      ⟨Reading.both_eq_ok_iff.mpr ⟨hbegin, Reading.both_eq_ok_iff.mpr ⟨hcolumn, hforeign⟩⟩, helse⟩,
      rfl⟩

theorem isPlain_ofValue {v : Value} {s : Settings} (hv : v.isStrict = true)
    (h : ofValue v = .ok s) : s.IsPlain := by
  obtain ⟨es, rfl, hread⟩ := Reading.record_eq_ok_iff.mp h
  obtain ⟨-, -, hforeign, -⟩ := ofFields_eq_ok.mp hread
  rcases Reading.exists_of_optional hforeign with habsent | ⟨e, he, hfields⟩
  · rw [IsPlain, ← habsent]
    decide
  · exact Reading.isTree_of_fields (((Value.isTreeOf_map_iff es).mp hv).2 e he).2 hfields

theorem readPrefix_text {s : String} (hne : s ≠ "") (hhead : s.toList.head? ≠ some '$') :
    readPrefix (.text s) = .ok s := by
  simp [readPrefix, Reading.text_one_text hne, hhead]

theorem isPlain_of_isStrict_dump {s : Settings} (h : s.dump.isStrict = true) : s.IsPlain := by
  have hmem : ("foreign_key_schema", Value.map s.foreignKey) ∈
      [("annotation_prefix", .text s.overridePrefix), ("default_id_column", .text s.idColumn),
        ("foreign_key_schema", .map s.foreignKey)] := by simp
  exact Value.isTreeOf_of_mem_object h hmem

/-- Valid settings are read again from the strict document they are written as. -/
theorem ofValue_dump {s : Settings} (hvalid : s.IsValid) (hstrict : s.dump.isStrict = true) :
    ofValue s.dump = .ok s := by
  refine Reading.record_eq_ok_iff.mpr ⟨_, rfl, ofFields_eq_ok.mpr ⟨?_, ?_, ?_, rfl⟩⟩
  · exact Reading.optional_eq_ok_iff.mpr
      (Or.inr ⟨_, rfl, readPrefix_text hvalid.overridePrefix_ne hvalid.overridePrefix_head⟩)
  · exact Reading.optional_eq_ok_iff.mpr
      (Or.inr ⟨_, rfl, Reading.text_one_text hvalid.idColumn_ne⟩)
  · exact Reading.optional_eq_ok_iff.mpr
      (Or.inr ⟨_, rfl, Reading.fields_map (isPlain_of_isStrict_dump hstrict)⟩)

/-- How settings change when an attribute is given a value. -/
inductive Sets (s : Settings) (v : Value) : String → Settings → Prop
  | overridePrefix {p : String} (h : readPrefix v = .ok p) :
      Sets s v "annotation_prefix" { s with overridePrefix := p }
  | idColumn {c : String} (h : Reading.text 1 v = .ok c) :
      Sets s v "default_id_column" { s with idColumn := c }
  | foreignKey {es : Fields} (h : Reading.fields v = .ok es) :
      Sets s v "foreign_key_schema" { s with foreignKey := es }

theorem sets_of_set {s t : Settings} {name : String} {v : Value} (h : s.set name v = .ok t) :
    s.Sets v name t := by
  have hset := Reading.under_eq_ok_iff.mp h
  split at hset
  · obtain ⟨p, hread, rfl⟩ := Reading.map_eq_ok_iff.mp hset
    exact .overridePrefix hread
  · obtain ⟨c, hread, rfl⟩ := Reading.map_eq_ok_iff.mp hset
    exact .idColumn hread
  · obtain ⟨es, hread, rfl⟩ := Reading.map_eq_ok_iff.mp hset
    exact .foreignKey hread
  · simp [Reading.notField, Reading.flawed] at hset

/-- **Settings are sound.** -/
theorem sound_record : record.Sound IsValid IsPlain id where
  valid_ofValue := isValid_of_ofValue
  valid_set {s name v t} hs h := by
    cases sets_of_set h with
    | overridePrefix hread =>
      exact ⟨(readPrefix_eq_ok hread).1, (readPrefix_eq_ok hread).2, hs.idColumn_ne⟩
    | idColumn hread => exact { hs with idColumn_ne := Reading.ne_empty_of_text hread }
    | foreignKey => exact { hs with }
  plain_ofValue := isPlain_ofValue
  plain_set {s name v t} hv hs h := by
    cases sets_of_set h with
    | foreignKey hread => exact Reading.isTree_of_fields hv hread
    | overridePrefix | idColumn => exact hs
  isStrict_dump {s} _ hs := by
    refine Value.isTreeOf_object
      (by decide : List.Nodup ["annotation_prefix", "default_id_column", "foreign_key_schema"]) ?_
    simp only [List.forall_mem_cons]
    exact ⟨rfl, rfl, hs, by simp⟩
  ofValue_dump := ofValue_dump

end Settings

/-! ### Join tables -/

/-- A join table with two references that are long enough. -/
structure Through.IsValid (t : Through) : Prop where
  source_length : 3 ≤ t.source.length
  target_length : 3 ≤ t.target.length

namespace Through

def record : Record String Through where
  ofValue := ofValue
  set := set
  dump := dump

theorem isValid_of_ofValue {v : Value} {t : Through} (h : ofValue v = .ok t) : t.IsValid := by
  obtain ⟨es, rfl, hread⟩ := Reading.record_eq_ok_iff.mp h
  obtain ⟨hsource, htarget, -, -⟩ := ofFields_eq_ok.mp hread
  obtain ⟨_, -, hsource⟩ := Reading.exists_of_required hsource
  obtain ⟨_, -, htarget⟩ := Reading.exists_of_required htarget
  exact ⟨Reading.le_length_of_text hsource, Reading.le_length_of_text htarget⟩

/-- A valid join table is read again from the document it is written as. -/
theorem ofValue_dump {t : Through} (h : t.IsValid) : ofValue t.dump = .ok t := by
  refine Reading.record_eq_ok_iff.mpr ⟨_, rfl, ofFields_eq_ok.mpr ⟨?_, ?_, ?_, rfl⟩⟩
  · exact Reading.required_eq_ok_iff.mpr ⟨_, rfl, Reading.text_text h.source_length⟩
  · exact Reading.required_eq_ok_iff.mpr ⟨_, rfl, Reading.text_text h.target_length⟩
  · exact Reading.optional_eq_ok_iff.mpr (Or.inr ⟨_, rfl, Reading.texts_texts t.extra⟩)

theorem isValid_of_set {t t' : Through} {name : String} {v : Value} (ht : t.IsValid)
    (h : t.set name v = .ok t') : t'.IsValid := by
  have hset := Reading.under_eq_ok_iff.mp h
  split at hset
  · obtain ⟨s, hread, rfl⟩ := Reading.map_eq_ok_iff.mp hset
    exact ⟨Reading.le_length_of_text hread, ht.target_length⟩
  · obtain ⟨s, hread, rfl⟩ := Reading.map_eq_ok_iff.mp hset
    exact ⟨ht.source_length, Reading.le_length_of_text hread⟩
  · obtain ⟨ss, -, rfl⟩ := Reading.map_eq_ok_iff.mp hset
    exact ⟨ht.source_length, ht.target_length⟩
  · simp [Reading.notField, Reading.flawed] at hset

/-- **Join tables are sound.** They are written as texts. -/
theorem sound_record : record.Sound IsValid (fun _ => True) id where
  valid_ofValue := isValid_of_ofValue
  valid_set := isValid_of_set
  plain_ofValue _ _ := trivial
  plain_set _ _ _ := trivial
  isStrict_dump {t} _ _ := t.isTree_dump Scalar.passesTexts_isStrict
  ofValue_dump h _ := ofValue_dump h

end Through

/-! ### Relations -/

/-- An attribute of a relation, or one of its join table. -/
inductive Relation.Attribute
  | own (name : String)
  | through (name : String)
deriving DecidableEq, Repr

/-- A relation with a target and a column of it, and with a valid join table if it has one. -/
structure Relation.IsValid {η : Type} (r : Relation η) : Prop where
  targetTable_ne : r.targetTable ≠ ""
  joinTo_ne : r.joinTo ≠ ""
  through : ∀ t, r.through = some t → t.IsValid

namespace Relation

/-- Gives an attribute a value. What is no join table has no attributes of one. -/
def setAt (r : Relation Value) (key : Attribute) (v : Value) : Reading (Relation Value) :=
  match key with
  | .own name => r.set name v
  | .through name =>
    match r.through with
    | some t => (t.set name v).map fun t => { r with through := some t }
    | none => Reading.flawed (.noAttribute name)

def record : Record Attribute (Relation Value) where
  ofValue := ofValue
  set := setAt
  dump := dump

/-- Whether a relation is written as a strict document. -/
def IsPlain (r : Relation Value) : Prop :=
  r.kind.isStrict = true

/-- Relations are read field by field. -/
theorem ofFields_eq_ok {es : Fields} {r : Relation Value} : ofFields es = .ok r ↔
    Reading.required ["kind"] Reading.anything es = .ok r.kind ∧
      Reading.required ["target_table"] (Reading.text 1) es = .ok r.targetTable ∧
      Reading.optional ["target_model"] none handleOrNull es = .ok r.target ∧
      Reading.optional ["join_from"] none Reading.textOrNull es = .ok r.joinFrom ∧
      Reading.required ["join_to"] (Reading.text 1) es = .ok r.joinTo ∧
      Reading.optional ["join_through"] none throughOrNull es = .ok r.through ∧
      Reading.nothingElse fieldNames es = .ok () := by
  rw [ofFields, Reading.map_eq_ok_iff]
  constructor
  · rintro ⟨⟨kind, targetTable, target, joinFrom, joinTo, through⟩, hread, rfl⟩
    obtain ⟨hboth, helse⟩ := Reading.checked_eq_ok_iff.mp hread
    obtain ⟨hkind, hrest⟩ := Reading.both_eq_ok_iff.mp hboth
    obtain ⟨htable, hrest⟩ := Reading.both_eq_ok_iff.mp hrest
    obtain ⟨htarget, hrest⟩ := Reading.both_eq_ok_iff.mp hrest
    obtain ⟨hfrom, hrest⟩ := Reading.both_eq_ok_iff.mp hrest
    obtain ⟨hto, hthrough⟩ := Reading.both_eq_ok_iff.mp hrest
    exact ⟨hkind, htable, htarget, hfrom, hto, hthrough, helse⟩
  · rintro ⟨hkind, htable, htarget, hfrom, hto, hthrough, helse⟩
    exact ⟨(r.kind, r.targetTable, r.target, r.joinFrom, r.joinTo, r.through),
      Reading.checked_eq_ok_iff.mpr ⟨Reading.both_eq_ok_iff.mpr ⟨hkind,
        Reading.both_eq_ok_iff.mpr ⟨htable, Reading.both_eq_ok_iff.mpr ⟨htarget,
          Reading.both_eq_ok_iff.mpr ⟨hfrom, Reading.both_eq_ok_iff.mpr ⟨hto, hthrough⟩⟩⟩⟩⟩, helse⟩,
      rfl⟩

theorem isValid_of_throughOrNull {v : Value} {through : Option Through}
    (h : throughOrNull v = .ok through) : ∀ t, through = some t → t.IsValid := by
  rintro t rfl
  unfold throughOrNull at h
  split at h
  · simp at h
  · obtain ⟨t, hread, heq⟩ := Reading.map_eq_ok_iff.mp h
    exact Option.some.inj heq ▸ Through.isValid_of_ofValue hread

theorem isValid_of_ofValue {v : Value} {r : Relation Value} (h : ofValue v = .ok r) :
    r.IsValid := by
  obtain ⟨es, rfl, hread⟩ := Reading.record_eq_ok_iff.mp h
  obtain ⟨-, htable, -, -, hto, hthrough, -⟩ := ofFields_eq_ok.mp hread
  obtain ⟨_, -, htable⟩ := Reading.exists_of_required htable
  obtain ⟨_, -, hto⟩ := Reading.exists_of_required hto
  refine ⟨Reading.ne_empty_of_text htable, Reading.ne_empty_of_text hto, ?_⟩
  rcases Reading.exists_of_optional hthrough with habsent | ⟨e, -, he⟩
  · simp [← habsent]
  · exact isValid_of_throughOrNull he

theorem isPlain_of_ofValue {v : Value} {r : Relation Value} (hv : v.isStrict = true)
    (h : ofValue v = .ok r) : r.IsPlain := by
  obtain ⟨es, rfl, hread⟩ := Reading.record_eq_ok_iff.mp h
  obtain ⟨e, he, hkind⟩ := Reading.exists_of_required (ofFields_eq_ok.mp hread).1
  have hvalue : e.2 = r.kind := Except.ok.inj hkind
  rw [IsPlain, ← hvalue]
  exact (((Value.isTreeOf_map_iff es).mp hv).2 e he).2

/-- How a relation changes when an attribute is given a value. -/
inductive Sets (r : Relation Value) (v : Value) : String → Relation Value → Prop
  | kind : Sets r v "kind" { r with kind := v }
  | targetTable {s : String} (h : Reading.text 1 v = .ok s) :
      Sets r v "target_table" { r with targetTable := s }
  | target {handle : Option Value} (h : handleOrNull v = .ok handle) :
      Sets r v "target_model" { r with target := handle }
  | joinFrom {s : Option String} (h : Reading.textOrNull v = .ok s) :
      Sets r v "join_from" { r with joinFrom := s }
  | joinTo {s : String} (h : Reading.text 1 v = .ok s) : Sets r v "join_to" { r with joinTo := s }
  | through {t : Option Through} (h : throughOrNull v = .ok t) :
      Sets r v "join_through" { r with through := t }

theorem sets_of_set {r r' : Relation Value} {name : String} {v : Value}
    (h : r.set name v = .ok r') : r.Sets v name r' := by
  have hset := Reading.under_eq_ok_iff.mp h
  split at hset
  · obtain rfl := Except.ok.inj hset
    exact .kind
  · obtain ⟨s, hread, rfl⟩ := Reading.map_eq_ok_iff.mp hset
    exact .targetTable hread
  · obtain ⟨handle, hread, rfl⟩ := Reading.map_eq_ok_iff.mp hset
    exact .target hread
  · obtain ⟨s, hread, rfl⟩ := Reading.map_eq_ok_iff.mp hset
    exact .joinFrom hread
  · obtain ⟨s, hread, rfl⟩ := Reading.map_eq_ok_iff.mp hset
    exact .joinTo hread
  · obtain ⟨through, hread, rfl⟩ := Reading.map_eq_ok_iff.mp hset
    exact .through hread
  · simp [Reading.notField, Reading.flawed] at hset

theorem isValid_of_set {r r' : Relation Value} {name : String} {v : Value} (hr : r.IsValid)
    (h : r.set name v = .ok r') : r'.IsValid := by
  cases sets_of_set h with
  | targetTable hread => exact { hr with targetTable_ne := Reading.ne_empty_of_text hread }
  | joinTo hread => exact { hr with joinTo_ne := Reading.ne_empty_of_text hread }
  | through hread => exact { hr with through := isValid_of_throughOrNull hread }
  | kind | target | joinFrom => exact { hr with }

theorem isPlain_of_set {r r' : Relation Value} {name : String} {v : Value}
    (hv : v.isStrict = true) (hr : r.IsPlain) (h : r.set name v = .ok r') : r'.IsPlain := by
  cases sets_of_set h with
  | kind => exact hv
  | targetTable | target | joinFrom | joinTo | through => exact hr

/-- A change below a relation is one of its join table. -/
theorem exists_of_setAt_through {r r' : Relation Value} {name : String} {v : Value}
    (h : r.setAt (.through name) v = .ok r') :
    ∃ t t', r.through = some t ∧ t.set name v = .ok t' ∧ r' = { r with through := some t' } := by
  simp only [setAt] at h
  split at h
  · next t ht =>
    obtain ⟨t', hset, rfl⟩ := Reading.map_eq_ok_iff.mp h
    exact ⟨t, t', ht, hset, rfl⟩
  · simp [Reading.flawed] at h

theorem isValid_of_setAt {r r' : Relation Value} {key : Attribute} {v : Value}
    (hr : r.IsValid) (h : r.setAt key v = .ok r') : r'.IsValid := by
  cases key with
  | own name => exact isValid_of_set hr h
  | through name =>
    obtain ⟨t, t', ht, hset, rfl⟩ := exists_of_setAt_through h
    refine { hr with through := fun t'' heq => ?_ }
    obtain rfl := Option.some.inj heq
    exact Through.isValid_of_set (hr.through t ht) hset

theorem isPlain_of_setAt {r r' : Relation Value} {key : Attribute} {v : Value}
    (hv : v.isStrict = true) (hr : r.IsPlain) (h : r.setAt key v = .ok r') : r'.IsPlain := by
  cases key with
  | own name => exact isPlain_of_set hv hr h
  | through name =>
    obtain ⟨t, t', -, -, rfl⟩ := exists_of_setAt_through h
    exact hr

theorem throughOrNull_dump {through : Option Through} (h : ∀ t, through = some t → t.IsValid) :
    throughOrNull ((through.map Through.dump).getD .null) = .ok through := by
  cases through with
  | none => rfl
  | some t => exact congrArg (Except.map some) (Through.ofValue_dump (h t rfl))

variable {η : Type}

/-- A valid relation is read again, without its handle, from the document it is written as. -/
theorem ofValue_dump {r : Relation η} (h : r.IsValid) : ofValue r.dump = .ok r.withoutTarget := by
  refine Reading.record_eq_ok_iff.mpr
    ⟨_, rfl, ofFields_eq_ok.mpr ⟨?_, ?_, ?_, ?_, ?_, ?_, rfl⟩⟩
  · exact Reading.required_eq_ok_iff.mpr ⟨_, rfl, rfl⟩
  · exact Reading.required_eq_ok_iff.mpr ⟨_, rfl, Reading.text_one_text h.targetTable_ne⟩
  · -- the handle is not written, and null is what stands for none
    exact Reading.optional_eq_ok_iff.mpr (Or.inl ⟨rfl, rfl⟩)
  · exact Reading.optional_eq_ok_iff.mpr
      (Or.inr ⟨_, rfl, Reading.textOrNull_ofText? r.joinFrom⟩)
  · exact Reading.required_eq_ok_iff.mpr ⟨_, rfl, Reading.text_one_text h.joinTo_ne⟩
  · exact Reading.optional_eq_ok_iff.mpr (Or.inr ⟨_, rfl, throughOrNull_dump h.through⟩)

/-- **Relations are sound.** -/
theorem sound_record : record.Sound IsValid IsPlain withoutTarget where
  valid_ofValue := isValid_of_ofValue
  valid_set := isValid_of_setAt
  plain_ofValue := isPlain_of_ofValue
  plain_set := isPlain_of_setAt
  isStrict_dump _ hr := isTree_dump Scalar.passesTexts_isStrict hr
  ofValue_dump h _ := ofValue_dump h

end Relation

/-! ### Descriptors -/

/-- An attribute of a descriptor, or one of the relation with a name. -/
inductive Descriptor.Attribute
  | own (name : String)
  | relation (name : String) (key : Relation.Attribute)
deriving DecidableEq, Repr

/-- A descriptor with names for its model, its table and its identity column, and with valid
relations of different names. -/
structure Descriptor.IsValid {η : Type} (d : Descriptor η) : Prop where
  modelName_ne : d.modelName ≠ ""
  tableName_ne : d.tableName ≠ ""
  idColumn_ne : d.idColumn ≠ ""
  relations_distinct : Entries.Distinct d.relations
  relations : ∀ e ∈ d.relations, e.2.IsValid

/-- Whether a descriptor is written as a strict document. -/
structure Descriptor.IsPlain {η : Type} (d : Descriptor η) : Prop where
  schema : (Value.map d.schema).isStrict = true
  kinds : Relation.KindsTree Scalar.isStrict d.relations

namespace Descriptor

/-- Gives an attribute a value. A relation keeps its place when one of its attributes changes. -/
def setAt (d : Descriptor Value) (key : Attribute) (v : Value) :
    Reading (Descriptor Value) :=
  match key with
  | .own name => d.set name v
  | .relation name key =>
    match d.relations.get? name with
    | some r => (r.setAt key v).map fun r => { d with relations := d.relations.put name r }
    | none => Reading.flawed .missing

def record : Record Attribute (Descriptor Value) where
  ofValue := ofValue
  set := setAt
  dump := dump

/-- Descriptors are read field by field. -/
theorem ofFields_eq_ok {es : Fields} {d : Descriptor Value} : ofFields es = .ok d ↔
    Reading.required ["model_name"] (Reading.text 1) es = .ok d.modelName ∧
      Reading.required ["table_name"] (Reading.text 1) es = .ok d.tableName ∧
      Reading.optional ["id_column"] "id" (Reading.text 1) es = .ok d.idColumn ∧
      Reading.optional ["schema", "json_schema"] [(.text "properties", .map [])] Reading.fields es =
        .ok d.schema ∧
      Reading.optional ["relations"] [] (Reading.mapping Relation.ofValue) es = .ok d.relations ∧
      Reading.nothingElse fieldNames es = .ok () := by
  rw [ofFields, Reading.map_eq_ok_iff]
  constructor
  · rintro ⟨⟨modelName, tableName, idColumn, schema, relations⟩, hread, rfl⟩
    obtain ⟨hboth, helse⟩ := Reading.checked_eq_ok_iff.mp hread
    obtain ⟨hmodel, hrest⟩ := Reading.both_eq_ok_iff.mp hboth
    obtain ⟨htable, hrest⟩ := Reading.both_eq_ok_iff.mp hrest
    obtain ⟨hcolumn, hrest⟩ := Reading.both_eq_ok_iff.mp hrest
    obtain ⟨hschema, hrelations⟩ := Reading.both_eq_ok_iff.mp hrest
    exact ⟨hmodel, htable, hcolumn, hschema, hrelations, helse⟩
  · rintro ⟨hmodel, htable, hcolumn, hschema, hrelations, helse⟩
    exact ⟨(d.modelName, d.tableName, d.idColumn, d.schema, d.relations),
      Reading.checked_eq_ok_iff.mpr ⟨Reading.both_eq_ok_iff.mpr ⟨hmodel,
        Reading.both_eq_ok_iff.mpr ⟨htable, Reading.both_eq_ok_iff.mpr ⟨hcolumn,
          Reading.both_eq_ok_iff.mpr ⟨hschema, hrelations⟩⟩⟩⟩, helse⟩, rfl⟩

theorem isValid_of_mapping {v : Value} {relations : Entries String (Relation Value)}
    (h : Reading.mapping Relation.ofValue v = .ok relations) :
    Entries.Distinct relations ∧ ∀ e ∈ relations, e.2.IsValid := by
  obtain ⟨hd, es, -, hread⟩ := Reading.exists_of_mapping h
  refine ⟨hd, fun e he => ?_⟩
  obtain ⟨_, -, hrelation⟩ := hread e he
  exact Relation.isValid_of_ofValue hrelation

theorem kindsTree_of_mapping {v : Value} {relations : Entries String (Relation Value)}
    (hv : v.isStrict = true) (h : Reading.mapping Relation.ofValue v = .ok relations) :
    Relation.KindsTree Scalar.isStrict relations := by
  obtain ⟨-, es, rfl, hread⟩ := Reading.exists_of_mapping h
  intro e he
  obtain ⟨e', he', hrelation⟩ := hread e he
  exact Relation.isPlain_of_ofValue (((Value.isTreeOf_map_iff es).mp hv).2 e' he').2 hrelation

theorem isValid_of_ofValue {v : Value} {d : Descriptor Value} (h : ofValue v = .ok d) :
    d.IsValid := by
  obtain ⟨es, rfl, hread⟩ := Reading.record_eq_ok_iff.mp h
  obtain ⟨hmodel, htable, hcolumn, -, hrelations, -⟩ := ofFields_eq_ok.mp hread
  obtain ⟨_, -, hmodel⟩ := Reading.exists_of_required hmodel
  obtain ⟨_, -, htable⟩ := Reading.exists_of_required htable
  have hcolumn : d.idColumn ≠ "" := by
    rcases Reading.exists_of_optional hcolumn with habsent | ⟨_, -, he⟩
    · rw [← habsent]
      decide
    · exact Reading.ne_empty_of_text he
  have hvalid : Entries.Distinct d.relations ∧ ∀ e ∈ d.relations, e.2.IsValid := by
    rcases Reading.exists_of_optional hrelations with habsent | ⟨_, -, he⟩
    · rw [← habsent]
      exact ⟨List.nodup_nil, by simp⟩
    · exact isValid_of_mapping he
  exact ⟨Reading.ne_empty_of_text hmodel, Reading.ne_empty_of_text htable, hcolumn, hvalid.1,
    hvalid.2⟩

theorem isPlain_of_ofValue {v : Value} {d : Descriptor Value} (hv : v.isStrict = true)
    (h : ofValue v = .ok d) : d.IsPlain := by
  obtain ⟨es, rfl, hread⟩ := Reading.record_eq_ok_iff.mp h
  obtain ⟨-, -, -, hschema, hrelations, -⟩ := ofFields_eq_ok.mp hread
  have hes := ((Value.isTreeOf_map_iff es).mp hv).2
  constructor
  · rcases Reading.exists_of_optional hschema with habsent | ⟨e, he, hfields⟩
    · rw [← habsent]
      decide
    · exact Reading.isTree_of_fields (hes e he).2 hfields
  · rcases Reading.exists_of_optional hrelations with habsent | ⟨e, he, hmapping⟩
    · rw [← habsent]
      simp [Relation.KindsTree]
    · exact kindsTree_of_mapping (hes e he).2 hmapping

/-- How a descriptor changes when an attribute is given a value. -/
inductive Sets (d : Descriptor Value) (v : Value) : String → Descriptor Value → Prop
  | modelName {s : String} (h : Reading.text 1 v = .ok s) :
      Sets d v "model_name" { d with modelName := s }
  | tableName {s : String} (h : Reading.text 1 v = .ok s) :
      Sets d v "table_name" { d with tableName := s }
  | idColumn {s : String} (h : Reading.text 1 v = .ok s) :
      Sets d v "id_column" { d with idColumn := s }
  | schema {es : Fields} (h : Reading.fields v = .ok es) :
      Sets d v "json_schema" { d with schema := es }
  | relations {rs : Entries String (Relation Value)}
      (h : Reading.mapping Relation.ofValue v = .ok rs) :
      Sets d v "relations" { d with relations := rs }

theorem sets_of_set {d d' : Descriptor Value} {name : String} {v : Value}
    (h : d.set name v = .ok d') : d.Sets v name d' := by
  have hset := Reading.under_eq_ok_iff.mp h
  split at hset
  · obtain ⟨s, hread, rfl⟩ := Reading.map_eq_ok_iff.mp hset
    exact .modelName hread
  · obtain ⟨s, hread, rfl⟩ := Reading.map_eq_ok_iff.mp hset
    exact .tableName hread
  · obtain ⟨s, hread, rfl⟩ := Reading.map_eq_ok_iff.mp hset
    exact .idColumn hread
  · obtain ⟨es, hread, rfl⟩ := Reading.map_eq_ok_iff.mp hset
    exact .schema hread
  · obtain ⟨rs, hread, rfl⟩ := Reading.map_eq_ok_iff.mp hset
    exact .relations hread
  · simp [Reading.notField, Reading.flawed] at hset

theorem isValid_of_set {d d' : Descriptor Value} {name : String} {v : Value} (hd : d.IsValid)
    (h : d.set name v = .ok d') : d'.IsValid := by
  cases sets_of_set h with
  | modelName hread => exact { hd with modelName_ne := Reading.ne_empty_of_text hread }
  | tableName hread => exact { hd with tableName_ne := Reading.ne_empty_of_text hread }
  | idColumn hread => exact { hd with idColumn_ne := Reading.ne_empty_of_text hread }
  | schema => exact { hd with }
  | relations hread =>
    obtain ⟨hdistinct, hvalid⟩ := isValid_of_mapping hread
    exact { hd with relations_distinct := hdistinct, relations := hvalid }

theorem isPlain_of_set {d d' : Descriptor Value} {name : String} {v : Value}
    (hv : v.isStrict = true) (hd : d.IsPlain) (h : d.set name v = .ok d') : d'.IsPlain := by
  cases sets_of_set h with
  | modelName | tableName | idColumn => exact { hd with }
  | schema hread => exact { hd with schema := Reading.isTree_of_fields hv hread }
  | relations hread => exact { hd with kinds := kindsTree_of_mapping hv hread }

/-- A change below a descriptor is one of a relation that it has. -/
theorem exists_of_setAt_relation {d d' : Descriptor Value} {name : String}
    {key : Relation.Attribute} {v : Value}
    (h : d.setAt (.relation name key) v = .ok d') :
    ∃ r r', (name, r) ∈ d.relations ∧ r.setAt key v = .ok r' ∧
      d' = { d with relations := d.relations.put name r' } := by
  simp only [setAt] at h
  split at h
  · next r hr =>
    obtain ⟨r', hset, rfl⟩ := Reading.map_eq_ok_iff.mp h
    exact ⟨r, r', Entries.mem_of_get?_eq_some hr, hset, rfl⟩
  · simp [Reading.flawed] at h

theorem isValid_of_setAt {d d' : Descriptor Value} {key : Attribute} {v : Value}
    (hd : d.IsValid) (h : d.setAt key v = .ok d') : d'.IsValid := by
  cases key with
  | own name => exact isValid_of_set hd h
  | relation name key =>
    obtain ⟨r, r', hr, hset, rfl⟩ := exists_of_setAt_relation h
    -- the changed relation has the place of the old one, and no other has changed
    refine { hd with
      relations_distinct := hd.relations_distinct.put name r'
      relations := fun e he => ?_ }
    rcases Entries.mem_of_mem_put he with rfl | hmem
    · exact Relation.isValid_of_setAt (hd.relations _ hr) hset
    · exact hd.relations e hmem

theorem isPlain_of_setAt {d d' : Descriptor Value} {key : Attribute} {v : Value}
    (hv : v.isStrict = true) (hd : d.IsPlain) (h : d.setAt key v = .ok d') : d'.IsPlain := by
  cases key with
  | own name => exact isPlain_of_set hv hd h
  | relation name key =>
    obtain ⟨r, r', hr, hset, rfl⟩ := exists_of_setAt_relation h
    refine { hd with kinds := fun e he => ?_ }
    rcases Entries.mem_of_mem_put he with rfl | hmem
    · exact Relation.isPlain_of_setAt hv (hd.kinds _ hr) hset
    · exact hd.kinds e hmem

variable {η : Type}

/-- **A valid descriptor is read again**, without the handles of its relations, from the strict
document it is written as. -/
theorem ofValue_dump {d : Descriptor η} (hvalid : d.IsValid) (hstrict : d.dump.isStrict = true) :
    ofValue d.dump = .ok d.withoutTargets := by
  refine Reading.record_eq_ok_iff.mpr ⟨_, rfl, ofFields_eq_ok.mpr ⟨?_, ?_, ?_, ?_, ?_, rfl⟩⟩
  · exact Reading.required_eq_ok_iff.mpr ⟨_, rfl, Reading.text_one_text hvalid.modelName_ne⟩
  · exact Reading.required_eq_ok_iff.mpr ⟨_, rfl, Reading.text_one_text hvalid.tableName_ne⟩
  · exact Reading.optional_eq_ok_iff.mpr
      (Or.inr ⟨_, rfl, Reading.text_one_text hvalid.idColumn_ne⟩)
  · exact Reading.optional_eq_ok_iff.mpr
      (Or.inr ⟨_, rfl, Reading.fields_map (isTree_schema hstrict)⟩)
  · exact Reading.optional_eq_ok_iff.mpr (Or.inr ⟨_, rfl,
      Reading.mapping_object hvalid.relations_distinct fun e he =>
        Relation.ofValue_dump (hvalid.relations e he)⟩)

/-- **Descriptors are sound.** -/
theorem sound_record : record.Sound IsValid IsPlain withoutTargets where
  valid_ofValue := isValid_of_ofValue
  valid_set := isValid_of_setAt
  plain_ofValue := isPlain_of_ofValue
  plain_set := isPlain_of_setAt
  isStrict_dump hvalid hplain :=
    isTree_dump Scalar.passesTexts_isStrict hplain.schema hvalid.relations_distinct hplain.kinds
  ofValue_dump := ofValue_dump

end Descriptor

end NestedTables
