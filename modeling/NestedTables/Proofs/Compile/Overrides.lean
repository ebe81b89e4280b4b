import NestedTables.Proofs.Compile.Alike
import NestedTables.Proofs.Override.Renamed
import NestedTables.Proofs.Override.Unheeded

/-!
# Compilations of schemas with other overrides

Overrides that are not heeded leave no trace but in the log (`compile_unheeded`): a compilation
gives the same result with them and without them, and registers the same tables. If it fails it
fails with the same error, since the rules find the same errors.

The prefix of the overrides leaves no trace either (`compile_renamed`). Here the wording of an error
may differ, as it tells the key; its kind and its pointer are the same.
-/

namespace NestedTables

variable {η ε : Type}

/-! ### Overrides that are not heeded -/

/-- **Overrides that are not heeded make no difference**: the result is the same with them and
without them, and so are the tables. -/
theorem compile_unheeded (binder : Binder η ε) (settings : Settings) {schema schema' : Fields}
    (hd : ∀ n, schema.Walked n → Entries.Distinct n)
    (hd' : ∀ n, schema'.Walked n → Entries.Distinct n)
    (h : schema.SameHeededAt settings (schema.tableNames settings) false none schema') :
    let outcome := compile binder settings (.map schema)
    let outcome' := compile binder settings (.map schema')
    outcome'.result = outcome.result ∧ outcome'.tables = outcome.tables := by
  have halike : schema.AlikeAt settings (schema.tableNames settings) false none schema' :=
    ⟨h, hd, hd'⟩
  have hrefusal : (Override.checkAll settings schema').refusal? =
      (Override.checkAll settings schema).refusal? := by
    rw [Report.refusal?, Report.refusal?, Override.errors_checkAll_eq halike]
  cases hnone : (Override.checkAll settings schema).refusal? with
  | none => exact compile_alike (fun h => h.corresponds) rfl hd halike binder hnone (hrefusal.trans hnone)
  | some e =>
    rw [compile_of_errors binder settings schema hnone,
      compile_of_errors binder settings schema' (hrefusal.trans hnone)]
    exact ⟨rfl, rfl⟩

/-- A library with its shelves. -/
def librarySchema : Fields :=
  [(.text "$id", .text "library"), (.text "x-relschema-table-name", .text "libraries"),
    (.text "properties", .object [("shelves", .object
      [("type", .text "array"), ("items", .object [("$id", .text "shelf")])])])]

/-- The library with a key that is not known, and with a join that its shelves do not heed. -/
def colouredSchema : Fields :=
  [(.text "$id", .text "library"), (.text "x-relschema-table-name", .text "libraries"),
    (.text "x-relschema-colour", .text "red"),
    (.text "properties", .object [("shelves", .object [("type", .text "array"),
      ("items", .object [("$id", .text "shelf"),
        ("x-relschema-join-to-column", .text "shelf.library")])])])]

theorem compile_unheeded_coloured :
    let outcome := compile (Binder.counting : Binder Nat Empty) {} (.map librarySchema)
    let outcome' := compile (Binder.counting : Binder Nat Empty) {} (.map colouredSchema)
    (∀ n, librarySchema.Walked n → Entries.Distinct n) ∧
      (∀ n, colouredSchema.Walked n → Entries.Distinct n) ∧
      librarySchema.SameHeededAt {} (librarySchema.tableNames {}) false none colouredSchema ∧
      outcome.result = .ok [("shelf", 0), ("library", 1)] ∧
      outcome'.result = outcome.result ∧ outcome'.tables = outcome.tables := by
  have hkeyed : librarySchema.isKeyed = true := by decide
  have hkeyed' : colouredSchema.isKeyed = true := by decide
  have hd : ∀ n, librarySchema.Walked n → Entries.Distinct n := fun n hn =>
    ((Fields.isKeyed_iff n).mp (hn.isKeyed hkeyed)).1
  have hd' : ∀ n, colouredSchema.Walked n → Entries.Distinct n := fun n hn =>
    ((Fields.isKeyed_iff n).mp (hn.isKeyed hkeyed')).1
  have href : ColumnRef.ofText? "shelf.library" = some ⟨"shelf", "library"⟩ := by decide
  have hshelf : Value.SameHeeded {} (librarySchema.tableNames {}) true (some .items)
      (.object [("$id", .text "shelf")]) (.object [("$id", .text "shelf"),
        ("x-relschema-join-to-column", .text "shelf.library")]) :=
    .node (.same _ (.added (.joinTo rfl (by decide) href) (.nil _ _)))
  have hlibrary : librarySchema.SameHeededAt {} (librarySchema.tableNames {}) false none colouredSchema :=
    .same _ (.same _ (.added (.unknown _ (by decide) (by decide) (by decide))
      (.properties (.cons _ (.node (.same _ (.items hshelf (.nil _ _)))) (.nil _)) (.nil _ _))))
  exact ⟨hd, hd', hlibrary, rfl, compile_unheeded Binder.counting {} hd hd' hlibrary⟩

/-! ### Another prefix -/

/-- Whether two failures are of one kind, with the same pointer. -/
def Failure.SameKind : Failure ε → Failure ε → Prop
  | .schema e, .schema e' => e.SameKind e'
  | f, f' => f = f'

theorem Failure.SameKind.refl (f : Failure ε) : f.SameKind f := by
  cases f with
  | schema e => cases e <;> simp [SameKind, SchemaError.SameKind]
  | _ => rfl

/-- **The prefix of the overrides makes no difference**: a schema that is written with another one
gives the same result and the same tables, or it fails in the same way. -/
theorem compile_renamed (binder : Binder η ε) (settings : Settings) (q : String)
    (hold : settings.SparesKeywords) (hnew : (settings.withPrefix q).SparesKeywords)
    {schema : Fields} (hd : ∀ n, schema.Walked n → Entries.Distinct n)
    (h : schema.Renames settings.overridePrefix q) :
    let outcome := compile binder settings (.map schema)
    let outcome' := compile binder (settings.withPrefix q)
      (.map (Fields.renamed settings.overridePrefix q schema))
    outcome'.tables = outcome.tables ∧
      ((∃ models, outcome.result = .ok models ∧ outcome'.result = .ok models) ∨
        ∃ f f', outcome.result = .error f ∧ outcome'.result = .error f' ∧ f.SameKind f') := by
  intro outcome outcome'
  have hroot : Fields.IsRenamed settings q false none schema _ := ⟨rfl, h⟩
  have hrefusal := Override.refusal?_renamed hold hnew h
  generalize hnone : (Override.checkAll settings schema).refusal? = refusal,
    hnone' : (Override.checkAll (settings.withPrefix q)
      (Fields.renamed settings.overridePrefix q schema)).refusal? = refusal' at hrefusal
  cases hrefusal with
  | none =>
    obtain ⟨hresult, htables⟩ :=
      compile_alike (fun h => h.corresponds hold hnew) (settings.foreignKey_withPrefix q) hd hroot
        binder hnone hnone'
    refine ⟨htables, ?_⟩
    cases hok : outcome.result with
    | ok models => exact .inl ⟨models, rfl, hresult.trans hok⟩
    | error f => exact .inr ⟨f, f, rfl, hresult.trans hok, .refl f⟩
  | @some e e' hkind =>
    have houtcome : outcome = _ := compile_of_errors binder settings schema hnone
    have houtcome' : outcome' = _ := compile_of_errors binder (settings.withPrefix q) _ hnone'
    rw [houtcome, houtcome']
    exact ⟨rfl, .inr ⟨.schema e, .schema e', rfl, rfl, hkind⟩⟩

theorem compile_renamed_library :
    let outcome := compile (Binder.counting : Binder Nat Empty) {} (.map librarySchema)
    let outcome' := compile (Binder.counting : Binder Nat Empty) (({} : Settings).withPrefix "x-")
      (.map (Fields.renamed "x-relschema-" "x-" librarySchema))
    ({} : Settings).SparesKeywords ∧ (({} : Settings).withPrefix "x-").SparesKeywords ∧
      (∀ n, librarySchema.Walked n → Entries.Distinct n) ∧
      librarySchema.Renames "x-relschema-" "x-" ∧
      Fields.value? "x-table-name" (Fields.renamed "x-relschema-" "x-" librarySchema) =
        some (.text "libraries") ∧
      outcome'.tables = outcome.tables ∧
        ((∃ models, outcome.result = .ok models ∧ outcome'.result = .ok models) ∨
          ∃ f f', outcome.result = .error f ∧ outcome'.result = .error f' ∧ f.SameKind f') := by
  have hold : ({} : Settings).SparesKeywords := by
    unfold Settings.SparesKeywords
    decide
  have hnew : (({} : Settings).withPrefix "x-").SparesKeywords := by
    unfold Settings.SparesKeywords
    decide
  have hkeyed : librarySchema.isKeyed = true := by decide
  have hd : ∀ n, librarySchema.Walked n → Entries.Distinct n := fun n hn =>
    ((Fields.isKeyed_iff n).mp (hn.isKeyed hkeyed)).1
  have hnodes : ∀ n ∈ librarySchema.nodes, ∀ e ∈ n.2, e.1.Renames "x-relschema-" "x-" := by decide
  have hrenames : librarySchema.Renames "x-relschema-" "x-" := by
    rintro n ⟨p, hp⟩
    exact hnodes _ hp
  exact ⟨hold, hnew, hd, hrenames, rfl, compile_renamed Binder.counting {} "x-" hold hnew hd hrenames⟩

end NestedTables
