import NestedTables.Proofs.Binding.Building
import NestedTables.Proofs.Binding.Built

/-!
# Types and defaults in step

The type of a column and its default are read off one property in two different ways, and each looks
at the format of texts for itself. They have to come to the same decision, since a database would
not notice until a row is inserted that a moment has been given as a text. For a text that is given
as the default of a text, the ways in which the two can end are listed in `Property.InStep`, and
they never end in any other way (`Property.inStep`).

What follows for the columns of a database (`Column.IsParsed`) does not depend on when it is built:
a building only adds columns of which it holds (`Binding.isParsed_of_mem_build`), so it holds of all
that have been added after any number of buildings.
-/

namespace NestedTables

/-! ### Properties -/

/-- The ways in which the type and the default of a column can end together, if a text `s` is given
as the default of a property for texts. -/
inductive Property.InStep (property : Fields) (s : String) :
    Except ColumnFault ColumnType → Except ColumnFault ColumnDefault → Prop
  | moment (t : Timestamp) : InStep property s (.ok .moment) (.ok (.moment t))
  | date (d : Date) : InStep property s (.ok .date) (.ok (.date d))
  | identifier (u : Identifier) : InStep property s (.ok .identifier) (.ok (.identifier u))
  /-- A text that has no format of its own stays as it is. -/
  | text (limit : Option Scalar) : InStep property s (.ok (.string limit)) (.ok (.value (.text s)))
  /-- Only what has a format can be refused for what it says. -/
  | unreadable {name : String} {f : Format} (hformat : property.value "format" = .text name)
      (hname : Format.ofName? name = some f) :
      InStep property s (.ok f.columnType) (.error (.unreadable s name))
  /-- A format that cannot be looked up leaves neither a type nor a default. -/
  | notAKey (hformat : (property.value "format").canBeKey = false) :
      InStep property s (.error .notAKey) (.error .notAKey)

namespace Property

variable {property : Fields} {s : String} {f : Format} {d : ColumnDefault}

/-- What is read in a format has the type of the format. -/
theorem inStep_of_read? (h : f.read? s = some d) :
    InStep property s (.ok f.columnType) (.ok d) := by
  cases f with
  | moment =>
    obtain ⟨t, -, rfl⟩ := Option.map_eq_some_iff.mp h
    exact .moment t
  | date =>
    obtain ⟨d, -, rfl⟩ := Option.map_eq_some_iff.mp h
    exact .date d
  | identifier =>
    obtain ⟨u, -, rfl⟩ := Option.map_eq_some_iff.mp h
    exact .identifier u

/-- A format cannot be looked up, or is unknown, or is known by its name. -/
theorem format?_cases (property : Fields) :
    (property.value "format").canBeKey = false ∧ format? property = .error .notAKey ∨
      format? property = .ok none ∨
      ∃ name f, property.value "format" = .text name ∧ Format.ofName? name = some f ∧
        format? property = .ok (some (name, f)) := by
  unfold format?
  simp only
  split
  · next hkey => exact Or.inl ⟨by simpa using hkey, rfl⟩
  · cases hformat : (property.value "format").text?.bind fun name =>
        (Format.ofName? name).map (name, ·) with
    | none => exact Or.inr (Or.inl rfl)
    | some found =>
      obtain ⟨name, htext, hname⟩ := Option.bind_eq_some_iff.mp hformat
      obtain ⟨f, hf, rfl⟩ := Option.map_eq_some_iff.mp hname
      exact Or.inr (Or.inr ⟨name, f, Value.text?_eq_some_iff.mp htext, hf, rfl⟩)

/-- **The type and the default of a property for texts are in step** if a text is given as its
default. -/
theorem inStep (htype : (declaredType property).isText "string" = true)
    (hdefault : property.value "default" = .text s) :
    InStep property s (columnType property) (columnDefault property) := by
  unfold columnType columnDefault
  simp only [htype, hdefault, if_true]
  rcases format?_cases property with ⟨hkey, hformat⟩ | hformat | ⟨name, f, htext, hname, hformat⟩
  · rw [hformat]
    exact .notAKey hkey
  · rw [hformat]
    exact .text _
  · rw [hformat]
    simp only
    cases hread : f.read? s with
    | none => exact .unreadable htext hname
    | some d => exact inStep_of_read? hread

/-- A default that is no text, or that is not given to a text, stays as it is. -/
theorem columnDefault_cases (property : Fields) :
    (∃ s, (declaredType property).isText "string" = true ∧ property.value "default" = .text s) ∨
      columnDefault property = .ok (.value (property.value "default")) ∧
        ∀ s, property.value "default" = .text s →
          (declaredType property).isText "string" = false := by
  unfold columnDefault
  split
  · next s htype hdefault => exact Or.inl ⟨s, hdefault, htype⟩
  · next hnot =>
    refine Or.inr ⟨rfl, fun s hdefault => Bool.eq_false_iff.mpr fun htype => ?_⟩
    exact hnot s hdefault htype

/-- Only texts have a format. -/
theorem columnType_ne (htype : (declaredType property).isText "string" = false) (f : Format) :
    columnType property ≠ .ok f.columnType := by
  have hplain : ∀ name, plainType name ≠ f.columnType := by
    intro name
    unfold plainType
    cases f <;> split <;> simp [Format.columnType]
  unfold columnType
  simp only [htype, Bool.false_eq_true, if_false]
  split
  · simp
  · cases (declaredType property).text? with
    | none => cases f <;> simp [Format.columnType]
    | some name => simpa using hplain name

end Property

/-! ### Columns -/

/-- Whether the default of a column is none that should have been read, or has been read for another
type. -/
structure Column.IsParsed (c : Column) : Prop where
  moment : ∀ t, c.default = some (.moment t) → c.type = .moment
  date : ∀ d, c.default = some (.date d) → c.type = .date
  identifier : ∀ u, c.default = some (.identifier u) → c.type = .identifier
  /-- No text is left where a format asks for something else. -/
  text : ∀ s, c.default = some (.value (.text s)) → ∀ f : Property.Format, c.type ≠ f.columnType

namespace Column

/-- A column without a default has none to read. -/
theorem isParsed_of_default_eq_none {c : Column} (h : c.default = none) : c.IsParsed := by
  constructor <;> simp [h]

/-- A type and a default that are in step fit each other. -/
theorem isParsed_of_inStep {property : Fields} {c : Column} {s : String} {d : ColumnDefault}
    (h : Property.InStep property s (.ok c.type) (.ok d)) (hdefault : c.default = some d) :
    c.IsParsed := by
  generalize htype : c.type = type at h
  cases h with
  | moment | date | identifier => constructor <;> simp [hdefault, htype]
  | text limit =>
    have hne : ∀ f : Property.Format, ColumnType.string limit ≠ f.columnType := by
      intro f
      cases f <;> simp [Property.Format.columnType]
    constructor <;> simp [hdefault, htype, hne]

/-- Type and default of the column of a property are those of the property. -/
theorem read_of_ofProperty {name : String} {property : Fields} {nullable : Bool}
    {refersTo : Option String} {c : Column}
    (h : ofProperty name property nullable refersTo = .ok c) :
    Property.columnType property = .ok c.type ∧
      ∀ d, c.default = some d → Property.columnDefault property = .ok d := by
  unfold ofProperty at h
  split at h
  · cases h
  · cases h
  · next type default htype hdefault =>
    obtain rfl := Except.ok.inj h
    refine ⟨htype, fun d hd => ?_⟩
    simp only at hd
    split at hd
    · cases hd
    · rw [hdefault, Option.some.inj hd]

/-- **The column of a property** has a default that fits its type. -/
theorem isParsed_of_ofProperty {name : String} {property : Fields} {nullable : Bool}
    {refersTo : Option String} {c : Column}
    (h : ofProperty name property nullable refersTo = .ok c) : c.IsParsed := by
  obtain ⟨htype, hread⟩ := read_of_ofProperty h
  cases hdefault : c.default with
  | none => exact isParsed_of_default_eq_none hdefault
  | some d =>
    rcases Property.columnDefault_cases property with ⟨s, htext, hs⟩ | ⟨hvalue, hnot⟩
    · have hstep := Property.inStep htext hs
      rw [htype, hread d hdefault] at hstep
      exact isParsed_of_inStep hstep hdefault
    · obtain rfl := Except.ok.inj ((hread d hdefault).symm.trans hvalue)
      constructor
      · simp [hdefault]
      · simp [hdefault]
      · simp [hdefault]
      · intro s hs f hf
        rw [hdefault, Option.some.injEq, ColumnDefault.value.injEq] at hs
        exact Property.columnType_ne (hnot s hs) f (hf ▸ htype)

end Column

/-! ### Tables -/

/-- **All columns of a table that is built** have defaults that fit their types. -/
theorem Descriptor.isParsed_of_build {η : Type} {d : Descriptor η} {keys : Entries String String}
    {columns : List Column} (h : d.build keys = .ok columns) : ∀ c ∈ columns, c.IsParsed := by
  obtain ⟨required, properties, declared, -, hdeclared, rfl⟩ := build_eq_ok h
  intro c hc
  rw [List.cons_append, List.mem_cons, List.mem_append] at hc
  rcases hc with rfl | hc | hc
  · exact Column.isParsed_of_default_eq_none rfl
  · obtain ⟨e, -, hcolumn⟩ := exists_mem_of_forall₂_left (forall₂_ofProperty hdeclared).flip hc
    exact Column.isParsed_of_ofProperty hcolumn
  · obtain ⟨e, -, rfl⟩ := List.mem_map.mp hc
    exact Column.isParsed_of_default_eq_none rfl

/-- A table of a catalogue that has been added to has been there before, or has been built. -/
theorem Catalog.mem_of_mem_build {η : Type} {keys : ForeignKeys}
    {tables : Entries String (Descriptor η)} {catalog : Catalog} {t : String × List Column}
    (ht : t ∈ (build keys tables catalog).1) :
    t ∈ catalog ∨ ∃ d, (t.1, d) ∈ tables ∧ d.build (keys.ofTable t.1) = .ok t.2 := by
  induction tables generalizing catalog with
  | nil => exact Or.inl ht
  | cons e rest ih =>
    obtain ⟨table, d⟩ := e
    rw [build] at ht
    split at ht
    · rcases ih ht with hold | ⟨d', hd', hbuild⟩
      · exact Or.inl hold
      · exact Or.inr ⟨d', List.mem_cons_of_mem _ hd', hbuild⟩
    · split at ht
      · exact Or.inl ht
      · next columns hcolumns =>
        rcases ih ht with hmem | ⟨d', hd', hbuild⟩
        · rcases List.mem_append.mp hmem with hold | hnew
          · exact Or.inl hold
          · obtain rfl := List.mem_singleton.mp hnew
            exact Or.inr ⟨d, List.mem_cons_self, hcolumns⟩
        · exact Or.inr ⟨d', List.mem_cons_of_mem _ hd', hbuild⟩

/-! ### Databases -/

namespace Binding

/-- Whether a binding can become another one: it receives tables, and builds what it has received,
in any order. -/
inductive Becomes (b : Binding) : Binding → Prop
  | refl : Becomes b b
  | receive {b' : Binding} (h : Becomes b b') (ds : List (Descriptor Nat)) :
      Becomes b (b'.receiveAll ds)
  | build {b' : Binding} (h : Becomes b b') : Becomes b b'.build.1

/-- A building only adds tables whose defaults fit. -/
theorem isParsed_of_mem_build {b : Binding} {t : String × List Column}
    (ht : t ∈ b.build.1.catalog) : t ∈ b.catalog ∨ ∀ c ∈ t.2, c.IsParsed := by
  have ht' : t ∈ (b.catalog.build b.foreignKeys b.received).1 := ht
  refine (Catalog.mem_of_mem_build ht').imp_right ?_
  rintro ⟨d, -, hbuild⟩
  exact d.isParsed_of_build hbuild

/-- So do any number of buildings. -/
theorem Becomes.isParsed {b b' : Binding} (h : b.Becomes b') {t : String × List Column}
    (ht : t ∈ b'.catalog) : t ∈ b.catalog ∨ ∀ c ∈ t.2, c.IsParsed := by
  induction h with
  | refl => exact Or.inl ht
  | @receive b' _ ds ih => exact ih (catalog_receiveAll b' ds ▸ ht)
  | build _ ih => exact (isParsed_of_mem_build ht).elim ih Or.inr

end Binding

/-- **Types and defaults of columns are in step.** If a text is given as the default of a property
for texts, then the type and the default of its column end together in one of the ways of
`Property.InStep`. Whatever a database receives and whenever it is built, the columns of the tables
that it builds have defaults that fit their types. -/
theorem columns_in_step :
    (∀ (property : Fields) (s : String),
      (Property.declaredType property).isText "string" = true →
      property.value "default" = .text s →
        Property.InStep property s (Property.columnType property)
          (Property.columnDefault property)) ∧
    ∀ b b' : Binding, b.Becomes b' → ∀ t ∈ b'.catalog,
      t ∈ b.catalog ∨ ∀ c ∈ t.2, c.IsParsed :=
  ⟨fun _ _ => Property.inStep, fun _ _ h _ => h.isParsed⟩

/-- A date that may be missing, with a default. -/
def dueProperty : Fields :=
  [(.text "type", .list [.text "null", .text "string"]), (.text "format", .text "date"),
    (.text "maxLength", .int 5), (.text "default", .text "2024-02-29")]

/-- A loan with a day when it is due. -/
def loanDescriptor : Descriptor Nat where
  modelName := "Loan"
  tableName := "loan"
  schema := [(.text "properties", .object [("due", .map dueProperty)])]

/-- The column of the day has a date for its type and for its default. -/
theorem columns_in_step_loan :
    let b : Binding := { catalog := [("book", [.identity "isbn"])] }
    let b' := (b.receiveAll [loanDescriptor]).build.1
    (Property.declaredType dueProperty).isText "string" = true ∧
      dueProperty.value "default" = .text "2024-02-29" ∧ b.Becomes b' ∧
      (∃ columns, b'.catalog.get? "loan" = some columns ∧
        columns.map (fun c => (c.name, c.type)) = [("id", .integer), ("due", .date)] ∧
        ∀ c ∈ columns, c.IsParsed) ∧
      ∃ d, Property.columnDefault dueProperty = .ok (.date d) := by
  intro b b'
  have htype : (Property.declaredType dueProperty).isText "string" = true := by rfl
  have hbecomes : b.Becomes b' := (Binding.Becomes.refl.receive [loanDescriptor]).build
  obtain ⟨hproperties, htables⟩ := columns_in_step
  refine ⟨htype, rfl, hbecomes, ?_, ?_⟩
  · obtain ⟨columns, hcolumns⟩ : ∃ columns, b'.catalog.get? "loan" = some columns :=
      Option.isSome_iff_exists.mp (by decide +kernel)
    have hshown : (b'.catalog.get? "loan").map (List.map fun c => (c.name, c.type)) =
        some [("id", .integer), ("due", .date)] := by decide +kernel
    rw [hcolumns, Option.map_some, Option.some.injEq] at hshown
    refine ⟨columns, hcolumns, hshown, ?_⟩
    rcases htables b b' hbecomes _ (Entries.mem_of_get?_eq_some hcolumns) with hold | hparsed
    · simp [b] at hold
    · exact hparsed
  · have hstep := hproperties dueProperty "2024-02-29" htype rfl
    have hdate : Property.columnType dueProperty = .ok .date := by rfl
    have hread : (Property.columnDefault dueProperty).toOption.isSome = true := by decide +kernel
    generalize Property.columnType dueProperty = type at hstep hdate
    generalize Property.columnDefault dueProperty = default at hstep hread
    cases hstep with
    | date d => exact ⟨d, rfl⟩
    | moment | identifier | text => cases hdate
    | unreadable | notAKey => cases hread

end NestedTables
