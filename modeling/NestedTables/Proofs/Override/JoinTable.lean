import NestedTables.Override.Rules
import NestedTables.Proofs.Record.Reading
import NestedTables.Proofs.Schema.Walked

/-!
# Join tables that the rules accept

A join table is accepted in three steps: it is read as a record, its two ends are read as
references, and these are looked up among the tables of the schema. `IsJoinTable` says in one piece
what has to be written, and `throughComplaint?_eq_none_iff` that the three steps ask for no more
and no less. It is about JSON documents: in others, bytes and sets are read as well.
-/

namespace NestedTables

namespace ColumnRef

/-- A text that is written by a reference. -/
def IsWritten (s : String) : Prop :=
  ∃ r : ColumnRef, s = r.written ∧ IsPart r.table ∧ IsPart r.column

theorem exists_ofText?_iff {s : String} : (∃ r, ofText? s = some r) ↔ IsWritten s :=
  exists_congr fun r => ofText?_eq_some_iff s r

theorem ofText?_eq_none_iff {s : String} : ofText? s = none ↔ ¬ IsWritten s := by
  rw [← exists_ofText?_iff, ← Option.isSome_iff_exists, Bool.not_eq_true,
    Option.isSome_eq_false_iff, Option.isNone_iff_eq_none]

/-- A reference has a character on both sides of its dot. -/
theorem leastReference_le_length {r : ColumnRef} (htable : IsPart r.table)
    (hcolumn : IsPart r.column) : Through.leastReference ≤ r.written.length := by
  have htable' := mt String.length_eq_zero_iff.mp htable.1
  have hcolumn' := mt String.length_eq_zero_iff.mp hcolumn.1
  have hdot : ".".length = 1 := rfl
  rw [written, String.length_append, String.length_append, hdot, Through.leastReference]
  omega

end ColumnRef

/-! ### Reading a join table -/

namespace Through

/-- What the entries of a JSON object have to be for it to be read as a join table, the source
under the key `name`. -/
structure WrittenBy (t : Through) (name : String) (es : Fields) : Prop where
  name_mem : name = "from" ∨ name = "from_"
  source : es.value? name = some (.text t.source)
  target : es.value? "to" = some (.text t.target)
  extra : es.value? "extra" = none ∧ t.extra = [] ∨
    es.value? "extra" = some (.list (t.extra.map .text))
  keys : ∀ e ∈ es, e.1 = .text name ∨ e.1 = .text "to" ∨ e.1 = .text "extra"

variable {t : Through} {es : Fields}

/-- The entry under which the source is found. -/
theorem find?_source_iff {e : String × Value} : Reading.find? ["from", "from_"] es = some e ↔
    (e.1 = "from" ∨ e.1 = "from_" ∧ es.value? "from" = none) ∧ es.value? e.1 = some e.2 := by
  obtain ⟨name, v⟩ := e
  cases hfrom : es.value? "from" with
  | some w =>
    simp only [Reading.find?, List.findSome?_cons, hfrom, Option.map_some, Option.some.injEq,
      Prod.mk.injEq, reduceCtorEq, and_false, or_false]
    constructor
    · rintro ⟨rfl, rfl⟩
      exact ⟨rfl, hfrom⟩
    · rintro ⟨rfl, hv⟩
      exact ⟨rfl, Option.some.inj (hfrom.symm.trans hv)⟩
  | none =>
    simp only [Reading.find?, List.findSome?_cons, hfrom, Option.map_none, List.findSome?_nil]
    cases hsecond : es.value? "from_" with
    | none =>
      simp only [Option.map_none, reduceCtorEq, and_true, false_iff, not_and]
      rintro (rfl | rfl) <;> simp [hfrom, hsecond]
    | some w =>
      simp only [Option.map_some, Option.some.injEq, Prod.mk.injEq, and_true]
      constructor
      · rintro ⟨rfl, rfl⟩
        exact ⟨Or.inr rfl, hsecond⟩
      · rintro ⟨rfl | rfl, hv⟩
        · simp [hfrom] at hv
        · exact ⟨rfl, Option.some.inj (hsecond.symm.trans hv)⟩

/-- No key is left over when there is the key of the source, and the keys of the other fields. -/
theorem nothingElse_iff {e : String × Value} (hsource : Reading.find? ["from", "from_"] es = some e) :
    Reading.nothingElse fieldNames es = .ok () ↔
      ∀ e' ∈ es, e'.1 = .text e.1 ∨ e'.1 = .text "to" ∨ e'.1 = .text "extra" := by
  rw [Reading.nothingElse_eq_ok_iff]
  refine forall_congr' fun e' => imp_congr_right fun he' => ?_
  simp only [fieldNames, List.exists_mem_cons_iff, List.not_mem_nil, false_and, exists_false,
    or_false, hsource, Option.some.injEq, exists_eq_left']
  -- a key that is there is found
  have hfound : ∀ name, (∃ found, Reading.find? [name] es = some found ∧
      e'.1 = .text found.1) ↔ e'.1 = .text name := by
    intro name
    constructor
    · rintro ⟨found, hfound, hkey⟩
      rw [hkey, (Reading.find?_singleton_iff.mp hfound).1]
    · intro hkey
      obtain ⟨v, hv⟩ := Option.isSome_iff_exists.mp ((Entries.mem_keys_iff (.text name) es).mp
        (hkey ▸ List.mem_map.mpr ⟨e', he', rfl⟩))
      exact ⟨(name, v), Reading.find?_singleton_iff.mpr ⟨rfl, hv⟩, hkey⟩
  rw [hfound, hfound]

/-- A join table is read field by field. -/
theorem ofFields_eq_ok : ofFields es = .ok t ↔
    Reading.required ["from", "from_"] (Reading.text leastReference) es = .ok t.source ∧
      Reading.required ["to"] (Reading.text leastReference) es = .ok t.target ∧
      Reading.optional ["extra"] [] Reading.texts es = .ok t.extra ∧
      Reading.nothingElse fieldNames es = .ok () := by
  rw [ofFields, Reading.map_eq_ok_iff]
  constructor
  · rintro ⟨⟨source, target, extra⟩, hread, rfl⟩
    obtain ⟨hboth, helse⟩ := Reading.checked_eq_ok_iff.mp hread
    obtain ⟨hsource, hrest⟩ := Reading.both_eq_ok_iff.mp hboth
    obtain ⟨htarget, hextra⟩ := Reading.both_eq_ok_iff.mp hrest
    exact ⟨hsource, htarget, hextra, helse⟩
  · rintro ⟨hsource, htarget, hextra, helse⟩
    exact ⟨(t.source, t.target, t.extra), Reading.checked_eq_ok_iff.mpr
      ⟨Reading.both_eq_ok_iff.mpr ⟨hsource, Reading.both_eq_ok_iff.mpr ⟨htarget, hextra⟩⟩, helse⟩,
      rfl⟩

/-- **A JSON object is read as a join table** exactly when it has the two ends, perhaps a list of
further columns, and no other key. -/
theorem ofFields_eq_ok_iff (hjson : es.isJson = true) : ofFields es = .ok t ↔
    (∃ name, t.WrittenBy name es) ∧ leastReference ≤ t.source.length ∧
      leastReference ≤ t.target.length := by
  have htext : ∀ {name : String} {v : Value}, es.value? name = some v → ∀ {s : String},
      Reading.text leastReference v = .ok s ↔ v = .text s ∧ leastReference ≤ s.length :=
    fun hv => Reading.text_eq_ok_iff (Fields.isJson_of_value? hjson hv)
  rw [ofFields_eq_ok, Reading.required_eq_ok_iff, Reading.required_text_eq_ok_iff hjson,
    Reading.optional_texts_eq_ok_iff hjson]
  constructor
  · rintro ⟨⟨⟨name, v⟩, hfind, hread⟩, ⟨htarget, hlength'⟩, hextra, helse⟩
    obtain ⟨hname, hsource⟩ := find?_source_iff.mp hfind
    obtain ⟨rfl, hlength⟩ := (htext hsource).mp hread
    exact ⟨⟨name, hname.imp_right And.left, hsource, htarget, hextra,
      (nothingElse_iff hfind).mp helse⟩, hlength, hlength'⟩
  · rintro ⟨⟨name, hwritten⟩, hlength, hlength'⟩
    -- the second name counts since the first one, which is no key, is not there
    have hfind : Reading.find? ["from", "from_"] es = some (name, .text t.source) := by
      refine find?_source_iff.mpr ⟨hwritten.name_mem.imp_right fun h => ⟨h, ?_⟩, hwritten.source⟩
      subst h
      by_contra hfrom
      obtain ⟨v, hv⟩ := Option.ne_none_iff_exists'.mp hfrom
      simpa using hwritten.keys _ (Entries.mem_of_get?_eq_some hv)
    exact ⟨⟨(name, .text t.source), hfind, (htext hwritten.source).mpr ⟨rfl, hlength⟩⟩,
      ⟨hwritten.target, hlength'⟩, hwritten.extra, (nothingElse_iff hfind).mpr hwritten.keys⟩

end Through

/-! ### The rule for join tables -/

namespace Override

variable {settings : Settings} {schema : Fields}

/-- A join table as it has to be written: an object with two references into one table, which is a
table of the schema, perhaps a list of texts, and no other key. -/
def IsJoinTable (settings : Settings) (schema : Fields) (v : Value) : Prop :=
  ∃ (es : Fields) (name : String) (source target : ColumnRef) (extra : List String),
    v = .map es ∧ Through.WrittenBy ⟨source.written, target.written, extra⟩ name es ∧
    ColumnRef.IsPart source.table ∧ ColumnRef.IsPart source.column ∧
    ColumnRef.IsPart target.table ∧ ColumnRef.IsPart target.column ∧
    source.table = target.table ∧
    ∃ node, schema.Walked node ∧ node.isTable = true ∧
      node.tableName? settings = some (.text source.table)

/-- No complaint is found when the three steps succeed. -/
theorem throughComplaint?_eq_none {tables : List String} {v : Value} :
    throughComplaint? settings tables v = none ↔ ∃ t, Through.ofValue v = .ok t ∧
      ∃ source target, ColumnRef.ofText? t.source = some source ∧
        ColumnRef.ofText? t.target = some target ∧ source.table = target.table ∧
        source.table ∈ tables := by
  unfold throughComplaint?
  cases Through.ofValue v with
  | error ps => simp
  | ok t =>
    cases hsource : ColumnRef.ofText? t.source with
    | none => simp [hsource]
    | some source =>
      cases htarget : ColumnRef.ofText? t.target with
      | none => simp [hsource, htarget]
      | some target =>
        simp only [Except.ok.injEq, exists_eq_left', hsource, htarget, Option.some.injEq]
        by_cases heq : source.table = target.table
        · by_cases hmem : target.table ∈ tables <;> simp [heq, hmem]
        · simp [heq]

/-- **A JSON document is accepted as a join table** exactly when it is written like one. -/
theorem throughComplaint?_eq_none_iff {v : Value} (hjson : v.isJson = true) :
    throughComplaint? settings (schema.tableNames settings) v = none ↔
      IsJoinTable settings schema v := by
  rw [throughComplaint?_eq_none]
  constructor
  · rintro ⟨t, ht, source, target, hsource, htarget, heq, hmem⟩
    obtain ⟨es, rfl, hread⟩ : ∃ es, v = .map es ∧ Through.ofFields es = .ok t := by
      cases v with
      | map es => exact ⟨es, rfl, ht⟩
      | _ => simp [Through.ofValue, Reading.record, Reading.flawed] at ht
    obtain ⟨⟨name, hwritten⟩, -, -⟩ := (Through.ofFields_eq_ok_iff hjson).mp hread
    obtain ⟨hsource, hsourceTable, hsourceColumn⟩ := (ColumnRef.ofText?_eq_some_iff ..).mp hsource
    obtain ⟨htarget, htargetTable, htargetColumn⟩ := (ColumnRef.ofText?_eq_some_iff ..).mp htarget
    obtain ⟨_, _, extra⟩ := t
    subst hsource htarget
    exact ⟨es, name, source, target, extra, rfl, hwritten, hsourceTable, hsourceColumn,
      htargetTable, htargetColumn, heq, Fields.mem_tableNames_iff.mp hmem⟩
  · rintro ⟨es, name, source, target, extra, rfl, hwritten, hsourceTable, hsourceColumn,
      htargetTable, htargetColumn, heq, hnode⟩
    refine ⟨_, (Through.ofFields_eq_ok_iff hjson).mpr ⟨⟨name, hwritten⟩,
      ColumnRef.leastReference_le_length hsourceTable hsourceColumn,
      ColumnRef.leastReference_le_length htargetTable htargetColumn⟩, source, target, ?_, ?_, heq,
      Fields.mem_tableNames_iff.mpr hnode⟩
    · exact (ColumnRef.ofText?_eq_some_iff ..).mpr ⟨rfl, hsourceTable, hsourceColumn⟩
    · exact (ColumnRef.ofText?_eq_some_iff ..).mpr ⟨rfl, htargetTable, htargetColumn⟩

end Override

end NestedTables
