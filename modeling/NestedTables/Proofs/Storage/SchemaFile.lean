import NestedTables.Proofs.Document.Exact
import NestedTables.Proofs.Json.Read
import NestedTables.Storage.SchemaFile

/-!
# What a schema file holds

The extension of a file tells in which language its document is read (`SchemaFile.document?`). A
JSON file is loaded if the document is an object (`SchemaFile.load_of_document?`). If there is no
schema at a path, loading fails for a reason that has been foreseen
(`SchemaFile.load_of_missing`). Where all schemas are kept in JSON (`SchemaFile.InJson`) this is so
for all reasons but those that lie in the system (`SchemaFile.InJson.isExpected`).

Files with a surrogate that stands alone are left out (`SchemaFile.HasLoneSurrogate`): what they
hold is JSON, but no document here.
-/

namespace NestedTables

/-- Whether the system does not let a path be looked at, or what is there be read. -/
def Found.isShut : Found → Bool
  | .tooLong | .closed => true
  | _ => false

/-- A result that is there is the one. -/
theorem eq_ok_of_toOption {ε α : Type} {r : Except ε α} {a : α} (h : r.toOption = some a) :
    r = .ok a := by
  cases r with
  | ok b => exact congrArg Except.ok (Option.some.inj h)
  | error e => cases h

namespace SchemaFile

/-- The document that a file holds, in the language that the extension of its name tells. -/
def document? (path : Path) (bytes : List UInt8) : Option Value :=
  match text bytes with
  | .error _ => none
  | .ok s =>
    match path.extension with
    | ".json" => (Json.read s).toOption
    | ".yaml" | ".yml" => (Yaml.read s).toOption
    | _ => none

/-- Whether a file is JSON in which a surrogate stands alone. -/
def HasLoneSurrogate (bytes : List UInt8) : Prop :=
  ∃ s, text bytes = .ok s ∧ Json.HasLoneSurrogate s

/-- The ways in which there is no schema at a path. -/
inductive Missing (path : Path) : Found → Prop
  | nothing : Missing path .nothing
  | folder : Missing path .folder
  /-- A JSON file that cannot be read, though no surrogate stands alone in it. -/
  | unreadable {bytes : List UInt8} (hjson : path.extension = ".json")
      (h : document? path bytes = none) (hwhole : ¬ HasLoneSurrogate bytes) :
      Missing path (.file bytes)
  /-- A document that is no mapping. -/
  | notMapping {bytes : List UInt8} {v : Value} (h : document? path bytes = some v)
      (hv : v.fields? = none) : Missing path (.file bytes)

variable {path : Path} {bytes : List UInt8} {schema : Fields}

/-! ### JSON files -/

section Json

variable {v : Value}

theorem load_of_json (hjson : path.extension = ".json") :
    load path (.file bytes) = (readAs .json path bytes, []) := by
  simp only [load, read, hjson]

/-- What a JSON file holds has been read from its text. -/
theorem exists_text_of_document? (hjson : path.extension = ".json")
    (h : document? path bytes = some v) : ∃ s, text bytes = .ok s ∧ Json.read s = .ok v := by
  unfold document? at h
  simp only [hjson] at h
  split at h
  · cases h
  · next s htext => exact ⟨s, htext, eq_ok_of_toOption h⟩

theorem readAs_of_document? (hjson : path.extension = ".json")
    (h : document? path bytes = some v) : readAs .json path bytes = mapping .json v := by
  obtain ⟨s, htext, hread⟩ := exists_text_of_document? hjson h
  simp only [readAs, htext, hread]

theorem not_hasLoneSurrogate_of_document? (hjson : path.extension = ".json")
    (h : document? path bytes = some v) : ¬ HasLoneSurrogate bytes := by
  obtain ⟨s, htext, hread⟩ := exists_text_of_document? hjson h
  rintro ⟨s', htext', remaining, hlone⟩
  obtain rfl := Except.ok.inj (htext.symm.trans htext')
  cases hread.symm.trans hlone

/-- A JSON file is loaded if it holds an object. -/
theorem load_of_document? (hjson : path.extension = ".json")
    (h : document? path bytes = some (.map schema)) :
    load path (.file bytes) = (.ok schema, []) := by
  rw [load_of_json hjson, readAs_of_document? hjson h, mapping]

/-- What has been read is built as a JSON document is. -/
theorem isTreeOf_of_document? (hjson : path.extension = ".json")
    (h : document? path bytes = some v) : v.isTreeOf Scalar.isReadable = true := by
  obtain ⟨s, -, hread⟩ := exists_text_of_document? hjson h
  exact Json.isTreeOf_of_read hread

/-- An object that has been read is exact if its numbers are finite. -/
theorem isExact_of_document? (hjson : path.extension = ".json")
    (h : document? path bytes = some (.map schema))
    (hfinite : (Value.map schema).isTreeOf Scalar.isFinite = true) :
    (Value.map schema).isExact = true :=
  Value.isTreeOf_and (isTreeOf_of_document? hjson h) hfinite

/-- A JSON file that cannot be read is reported, whatever is wrong with it but a surrogate. -/
theorem readAs_of_unreadable (hjson : path.extension = ".json") (h : document? path bytes = none)
    (hwhole : ¬ HasLoneSurrogate bytes) :
    ∃ e, readAs .json path bytes = .error e ∧ e.isExpected = true := by
  unfold document? at h
  unfold readAs
  simp only [hjson] at h
  cases htext : text bytes with
  | error e =>
    unfold text at htext
    split at htext
    · cases htext
    · obtain rfl := Except.error.inj htext
      exact ⟨_, rfl, rfl⟩
  | ok s =>
    cases hread : Json.read s with
    | ok v => simp [htext, hread, Except.toOption] at h
    | error f =>
      obtain ⟨fault, remaining⟩ := f
      simp only [hread]
      cases fault with
      | loneSurrogate => exact absurd ⟨s, htext, remaining, hread⟩ hwhole
      | _ => exact ⟨_, rfl, rfl⟩

end Json

/-! ### No schema -/

/-- A document that is no mapping is reported, whatever the language. -/
theorem mapping_of_fields?_eq_none {v : Value} (hv : v.fields? = none) (format : SchemaFormat) :
    ∃ e, mapping format v = .error e ∧ e.isExpected = true := by
  cases v with
  | map es => cases hv
  | scalar | list | set | pair => exact ⟨_, rfl, rfl⟩

/-- **Where there is no schema** loading fails as foreseen. -/
theorem load_of_missing {found : Found} (h : Missing path found) :
    ∃ e, load path found = (.error e, []) ∧ e.isExpected = true := by
  cases h with
  | nothing => exact ⟨_, rfl, rfl⟩
  | folder => exact ⟨_, rfl, rfl⟩
  | unreadable hjson h hwhole =>
    obtain ⟨e, hread, hexpected⟩ := readAs_of_unreadable hjson h hwhole
    exact ⟨e, by rw [load_of_json hjson, hread], hexpected⟩
  | @notMapping bytes v h hv =>
    have hmapping := mapping_of_fields?_eq_none hv
    have hdocument := h
    unfold document? at h
    split at h
    · cases h
    · next s htext =>
      split at h
      · next hjson =>
        obtain ⟨e, he, hexpected⟩ := hmapping .json
        refine ⟨e, ?_, hexpected⟩
        rw [load_of_json hjson, readAs_of_document? hjson hdocument, he]
      · next hyaml =>
        obtain ⟨e, he, hexpected⟩ := hmapping .yaml
        refine ⟨e, ?_, hexpected⟩
        simp only [load, read, hyaml, readAs, htext, eq_ok_of_toOption h, he]
      · next hyml =>
        obtain ⟨e, he, hexpected⟩ := hmapping .yaml
        refine ⟨e, ?_, hexpected⟩
        simp only [load, read, hyml, readAs, htext, eq_ok_of_toOption h, he]
      · cases h

/-! ### Schemas that are kept in JSON -/

/-- What is found where all schemas are kept in JSON. -/
inductive InJson (path : Path) : Found → Prop
  | nothing : InJson path .nothing
  | folder : InJson path .folder
  | shut {found : Found} (h : found.isShut = true) : InJson path found
  /-- A file whose name says so, with any bytes, unless a surrogate stands alone in it. -/
  | named {bytes : List UInt8} (hjson : path.extension = ".json")
      (hwhole : ¬ HasLoneSurrogate bytes) : InJson path (.file bytes)
  /-- A file of any name with a schema that JSON has a form for. -/
  | loaded {bytes : List UInt8} {schema : Fields} {log : List Event}
      (h : read path bytes = (.ok schema, log))
      (htree : (Value.map schema).isTreeOf Scalar.isReadable = true) : InJson path (.file bytes)

section InJson

variable {found : Found} {log : List Event}

/-- What the system shuts is not loaded, and that has not been foreseen. -/
theorem load_of_isShut (path : Path) (h : found.isShut = true) :
    ∃ e, load path found = (.error e, []) ∧ e.isExpected = false := by
  cases found with
  | tooLong | closed => exact ⟨_, rfl, rfl⟩
  | nothing | folder | file => cases h

/-- **A schema that is kept in JSON** has been read. -/
theorem InJson.isTreeOf (h : InJson path found) (hload : load path found = (.ok schema, log)) :
    (Value.map schema).isTreeOf Scalar.isReadable = true := by
  cases h with
  | nothing | folder => cases hload
  | shut h =>
    obtain ⟨e, hfails, -⟩ := load_of_isShut path h
    cases hfails.symm.trans hload
  | @named bytes hjson hwhole =>
    rw [load_of_json hjson] at hload
    have hread : readAs .json path bytes = .ok schema := congrArg Prod.fst hload
    cases hdocument : document? path bytes with
    | none =>
      obtain ⟨e, hfails, -⟩ := readAs_of_unreadable hjson hdocument hwhole
      cases hfails.symm.trans hread
    | some v =>
      rw [readAs_of_document? hjson hdocument] at hread
      cases v with
      | map es =>
        obtain rfl := Except.ok.inj hread
        exact isTreeOf_of_document? hjson hdocument
      | scalar | list | set | pair => cases hread
  | loaded hread htree =>
    obtain rfl := Except.ok.inj (congrArg Prod.fst (hread.symm.trans hload))
    exact htree

/-- **A schema that is kept in JSON** is loaded, or it has been foreseen that it is not, unless the
system shuts its path. -/
theorem InJson.isExpected {e : Failure} (h : InJson path found) (hopen : found.isShut = false)
    (hload : load path found = (.error e, log)) : e.isExpected = true := by
  have hfirst : (load path found).1 = .error e := congrArg Prod.fst hload
  cases h with
  | nothing | folder =>
    obtain rfl := Except.error.inj hfirst
    rfl
  | shut h => cases h.symm.trans hopen
  | @named bytes hjson hwhole =>
    rw [load_of_json hjson] at hfirst
    cases hdocument : document? path bytes with
    | none =>
      obtain ⟨e', hfails, hexpected⟩ := readAs_of_unreadable hjson hdocument hwhole
      obtain rfl := Except.error.inj (hfails.symm.trans hfirst)
      exact hexpected
    | some v =>
      rw [readAs_of_document? hjson hdocument] at hfirst
      cases v with
      | map es => cases hfirst
      | scalar | list | set | pair =>
        obtain rfl := Except.error.inj hfirst
        rfl
  | loaded hread _ => cases hread.symm.trans hload

end InJson

end SchemaFile

end NestedTables
