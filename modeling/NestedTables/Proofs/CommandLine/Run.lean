import NestedTables.Proofs.CommandLine.Models
import NestedTables.Proofs.Compile.Collisions
import NestedTables.Proofs.Json.RoundTrip
import NestedTables.Proofs.Override.Writable
import NestedTables.Proofs.Schema.Settings
import NestedTables.Proofs.Storage.SchemaFile

/-!
# The two modes of the program

The program agrees with the library (`CommandLine.run_modes`). One mode tells whether the overrides
of a schema are valid. The other one compiles the schema, which succeeds exactly if the overrides
are valid and no relations collide, and prints the models; nothing is printed before it is clear
that it succeeds. Where there is no schema both modes end alike.

All this is about schemas that have been read in JSON, and have finite numbers only. They are exact
documents, so nothing that is shown of them is too long, and what is compiled of them is printed as
it is and is read back as it was.
-/

namespace NestedTables

/-- Whether a schema can be compiled: its overrides are valid, and no table has two sites with the
same name. -/
def Fields.Compilable (settings : Settings) (schema : Fields) : Prop :=
  (Override.checkAll settings schema).isValid = true ∧
    ¬ ∃ t ∈ (Tree.ofFields schema).tables, ∃ name, t.2.Repeats name

namespace CommandLine

/-! ### What can be seen of a run -/

/-- Whether a run exits with a code. -/
def Run.Exits (r : Run) (code : Nat) : Prop :=
  ∃ c : ExitCode, r.ending = .exit c ∧ c.toNat = code

/-- Whether a run agrees with what the library says of a schema that has been loaded. -/
structure Arguments.Agrees (a : Arguments) (settings : Settings) (schema : Fields) (r : Run) :
    Prop where
  /-- Only the overrides are looked at. -/
  validates : a.validateOnly = true →
    let valid := (Override.checkAll settings schema).isValid
    (r.Exits 0 ↔ valid = true) ∧ (r.Exits 1 ↔ valid = false)
  /-- Every schema is compiled that can be. -/
  compiles : a.validateOnly = false →
    (r.Exits 0 ↔ schema.Compilable settings) ∧ (r.Exits 1 ↔ ¬ schema.Compilable settings)
  /-- Nothing is printed of a compilation that fails. -/
  silent : a.validateOnly = false → r.Exits 1 → r.output = ""
  /-- The models of the library are printed. -/
  prints : a.validateOnly = false → a.format = "json" → r.Exits 0 →
    let outcome := NestedTables.compile
      ({ Binder.counting with virtual := a.virtualNames } : Binder Nat Empty) settings (.map schema)
    ∃ es, Json.read r.output = .ok (.map es) ∧ ShowsModels outcome.tables es

namespace Job

variable {job : Job}

/-! ### Compiling -/

theorem all_isWritable {log : List Event} (h : Event.CanTell log) : log.all isWritable = true := by
  refine List.all_eq_true.mpr fun e he => ?_
  cases e with
  | notVisited p => exact h p he
  | _ => rfl

/-- What the program adds to a schema is made of texts. -/
theorem isTree_setting {test : Scalar → Bool} (ht : Scalar.PassesTexts test)
    (hforeign : job.settings.foreignKey = ({} : Settings).foreignKey) :
    (⟨job.settings, job.binder⟩ : Walk.Setting Nat Empty).IsTree test where
  foreignKey := by
    have hinteger : (Value.object [("type", .text "integer")]).isTreeOf test = true :=
      Value.isTreeOf_object (List.nodup_singleton _) (by simp [Value.isTreeOf, ht.text])
    rw [hforeign]
    exact hinteger
  belongsToOne := ht.text _
  hasMany := ht.text _

/-- A compilation of a schema whose findings can be written, if all properties to leave out have
names. They are not looked at where the overrides are not valid. -/
theorem compile_eq_compiled (hshown : Override.unwritable? job.settings job.schema = none)
    (hvirtual : (Override.checkAll job.settings job.schema).isValid = true →
      Given.nothing ∉ job.arguments.virtual) :
    job.compile =
      job.compiled (NestedTables.compile job.binder job.settings (.map job.schema)) := by
  have hnothing : ((Override.checkAll job.settings job.schema).isValid &&
      job.arguments.virtual.contains .nothing) = false := by
    cases hvalid : (Override.checkAll job.settings job.schema).isValid with
    | false => rfl
    | true => simpa using hvirtual hvalid
  unfold compile
  simp only [hshown, hnothing, Bool.false_eq_true, if_false]

/-- **A compilation of the program** gives a result if the schema can be compiled, and fails for an
error of the schema if not. -/
theorem compile_result (hset : job.settings.IsValid) (hkeyed : job.schema.isKeyed = true) :
    let outcome := NestedTables.compile job.binder job.settings (.map job.schema)
    (job.schema.Compilable job.settings ∧ ∃ models, outcome.result = .ok models) ∨
      ¬ job.schema.Compilable job.settings ∧ ∃ e, outcome.result = .error (.schema e) := by
  intro outcome
  cases hrefusal : (Override.checkAll job.settings job.schema).refusal? with
  | some e =>
    refine Or.inr ⟨fun h => ?_, e, ?_⟩
    · rw [refusal?_eq_none_iff.mpr h.1] at hrefusal
      cases hrefusal
    · exact congrArg Outcome.result (compile_of_errors job.binder _ _ hrefusal)
  | none =>
    have hvalid := refusal?_eq_none_iff.mp hrefusal
    have hends : CompileEnds job.binder job.settings job.schema outcome :=
      compile_ends job.binder hset hkeyed hvalid
    clear_value outcome
    cases hends with
    | finished _ hnames =>
      refine Or.inl ⟨⟨hvalid, ?_⟩, _, rfl⟩
      rintro ⟨t, ht, name, hrepeats⟩
      exact Tree.not_nodup_of_repeats hrepeats (hnames t ht)
    | @refused _ _ _ _ _ reason => exact reason.elim
    | @collided _ _ _ name _ t _ _ ht hclash =>
      refine Or.inr ⟨fun h => h.2 ⟨t, ht, name, ?_⟩, _, rfl⟩
      obtain ⟨htree, hsub⟩ := Tree.ofFields_of_mem_tables hkeyed ht
      obtain ⟨hdup, -⟩ := hclash
      rw [htree] at hdup ⊢
      exact Tree.repeats_of_duplicate hsub hdup

/-- An exact payload is printed. -/
theorem print_eq {models : Entries String Nat} {tables : List (Descriptor Nat)} {log : List Event}
    (h : (Value.map (payload models tables)).isExact = true) :
    job.print models tables log = job.arguments.ended (.exit .success) log
      (inFormat job.arguments.format (payload models tables)) := by
  rw [Value.isExact, Value.isTreeOf, Bool.and_eq_true] at h
  unfold print
  simp only [Value.portableEntries_of_entriesTreeOf (fun _ => Scalar.portable_of_isExact) h.2,
    Value.entriesWritable_of_entriesTreeOf (fun _ => Scalar.isWritable_of_isExact) h.2, if_true]

theorem exists_compiled_eq_print {outcome : Outcome Nat Empty} {models : Entries String Nat}
    (hlog : outcome.log.all isWritable = true) (hok : outcome.result = .ok models) :
    ∃ log, job.compiled outcome = job.print models outcome.tables log := by
  unfold compiled
  simp only [hlog, hok, Bool.not_true, Bool.false_eq_true, if_false]
  exact ⟨_, rfl⟩

theorem exists_compiled_eq_refused {outcome : Outcome Nat Empty} {e : SchemaError}
    (hlog : outcome.log.all isWritable = true) (herror : outcome.result = .error (.schema e)) :
    ∃ log, job.compiled outcome = job.arguments.ended (.exit .refused) log := by
  unfold compiled
  simp only [hlog, herror, Bool.not_true, Bool.false_eq_true, if_false]
  exact ⟨_, rfl⟩

/-- All findings about an exact schema can be written. -/
theorem unwritable?_of_isExact {settings : Settings} {schema : Fields}
    (h : (Value.map schema).isExact = true) : Override.unwritable? settings schema = none :=
  Override.unwritable?_eq_none (fun _ => Scalar.isWritable_of_isExact) h settings

/-- **The ends of a compilation of the program.** The models are printed if the schema can be
compiled. Here the scalars of the schema pass a test, and so do those of what is printed. -/
theorem compile_prints {test : Scalar → Bool} (ht : Scalar.PassesTexts test)
    (hwritable : ∀ s, test s = true → s.isWritable = true) (hset : job.settings.IsValid)
    (hforeign : job.settings.foreignKey = ({} : Settings).foreignKey)
    (htree : (Value.map job.schema).isTreeOf test = true)
    (hvirtual : (Override.checkAll job.settings job.schema).isValid = true →
      Given.nothing ∉ job.arguments.virtual) :
    let outcome := NestedTables.compile job.binder job.settings (.map job.schema)
    (job.schema.Compilable job.settings ∧ ∃ models log,
        (Value.map (payload models outcome.tables)).isTreeOf test = true ∧
        ShowsModels outcome.tables (payload models outcome.tables) ∧
          job.compile = job.print models outcome.tables log) ∨
      ¬ job.schema.Compilable job.settings ∧
        ∃ log, job.compile = job.arguments.ended (.exit .refused) log := by
  intro outcome
  obtain ⟨hdumps, hlog⟩ := compile_trees ht (isTree_setting ht hforeign) htree
  have hcompile : job.compile = job.compiled outcome :=
    compile_eq_compiled (Override.unwritable?_eq_none hwritable htree job.settings) hvirtual
  have hall : outcome.log.all isWritable = true := all_isWritable hlog
  rw [hcompile]
  have hkeyed : job.schema.isKeyed = true := Value.isKeyed_of_isTreeOf htree
  rcases compile_result hset hkeyed with ⟨h, models, hok⟩ | ⟨h, e, herror⟩
  · have hcounts := countsTables_of_result_eq_ok hok
    obtain ⟨log, hcompiled⟩ := exists_compiled_eq_print hall hok
    exact Or.inl ⟨h, models, log, isTreeOf_payload hcounts hdumps, showsModels_payload hcounts,
      hcompiled⟩
  · exact Or.inr ⟨h, exists_compiled_eq_refused hall herror⟩

/-- What is compiled of an exact schema is printed as it is. -/
theorem compile_cases (hset : job.settings.IsValid)
    (hforeign : job.settings.foreignKey = ({} : Settings).foreignKey)
    (hexact : (Value.map job.schema).isExact = true)
    (hvirtual : Given.nothing ∉ job.arguments.virtual) :
    let outcome := NestedTables.compile job.binder job.settings (.map job.schema)
    (job.schema.Compilable job.settings ∧ ∃ es log, (Value.map es).isExact = true ∧
        ShowsModels outcome.tables es ∧
          job.compile = job.arguments.ended (.exit .success) log
            (inFormat job.arguments.format es)) ∨
      ¬ job.schema.Compilable job.settings ∧
        ∃ log, job.compile = job.arguments.ended (.exit .refused) log := by
  intro outcome
  rcases compile_prints Scalar.passesTexts_isExact (fun _ => Scalar.isWritable_of_isExact) hset
    hforeign hexact (fun _ => hvirtual) with ⟨h, models, log, hpayload, hshows, hcompile⟩ | h
  · exact Or.inl ⟨h, _, log, hpayload, hshows, hcompile.trans (print_eq hpayload)⟩
  · exact Or.inr h

/-! ### Both modes -/

theorem exits_ended_iff {a : Arguments} {c : ExitCode} {log : List Event} {output : String}
    {code : Nat} : (a.ended (.exit c) log output).Exits code ↔ c.toNat = code := by
  constructor
  · rintro ⟨c', hc', rfl⟩
    exact congrArg ExitCode.toNat (Ending.exit.inj hc')
  · exact fun h => ⟨c, rfl, h⟩

theorem exits_check_iff (hshown : Override.unwritable? job.settings job.schema = none)
    {code : Nat} : job.check.Exits code ↔
      (if (Override.checkAll job.settings job.schema).isValid then 0 else 1) = code := by
  unfold check
  simp only [hshown, exits_ended_iff]
  split <;> rfl

theorem run_eq_check (hmode : job.arguments.validateOnly = true) : job.run = job.check := by
  simp [run, hmode]

theorem run_eq_compile (hmode : job.arguments.validateOnly = false) : job.run = job.compile := by
  simp [run, hmode]

/-- **A job agrees with the library**, in both modes. -/
theorem agrees_run (hset : job.settings.IsValid)
    (hforeign : job.settings.foreignKey = ({} : Settings).foreignKey)
    (hexact : (Value.map job.schema).isExact = true)
    (hvirtual : Given.nothing ∉ job.arguments.virtual) :
    job.arguments.Agrees job.settings job.schema job.run where
  validates hmode := by
    have hshown : Override.unwritable? job.settings job.schema = none :=
      unwritable?_of_isExact hexact
    rw [run_eq_check hmode, exits_check_iff hshown, exits_check_iff hshown]
    cases (Override.checkAll job.settings job.schema).isValid <;> simp
  compiles hmode := by
    rw [run_eq_compile hmode]
    rcases compile_cases hset hforeign hexact hvirtual with
      ⟨h, es, log, -, -, hcompile⟩ | ⟨h, log, hcompile⟩
    · rw [hcompile, exits_ended_iff, exits_ended_iff]
      simp [ExitCode.toNat, h]
    · rw [hcompile, exits_ended_iff, exits_ended_iff]
      simp [ExitCode.toNat, h]
  silent hmode hexits := by
    rw [run_eq_compile hmode] at hexits ⊢
    rcases compile_cases hset hforeign hexact hvirtual with
      ⟨-, es, log, -, -, hcompile⟩ | ⟨-, log, hcompile⟩
    · rw [hcompile, exits_ended_iff] at hexits
      cases hexits
    · rw [hcompile]
      rfl
  prints hmode hformat hexits := by
    rw [run_eq_compile hmode] at hexits ⊢
    rcases compile_cases hset hforeign hexact hvirtual with
      ⟨-, es, log, hes, hshows, hcompile⟩ | ⟨-, log, hcompile⟩
    · refine ⟨es, ?_, hshows⟩
      rw [hcompile, hformat]
      exact Json.read_lines_writeIndented hes
    · rw [hcompile, exits_ended_iff] at hexits
      cases hexits

end Job

/-! ### Runs -/

/-- No option names a schema for foreign keys. -/
theorem Arguments.foreignKey_eq {a : Arguments} {settings : Settings}
    (h : Settings.ofValue a.settingsDocument = .ok settings) :
    settings.foreignKey = ({} : Settings).foreignKey := by
  refine Settings.foreignKey_of_ofValue h ?_
  cases a.overridePrefix <;> cases a.idColumn <;> rfl

/-- **The two modes of the program.** Take a command line that is understood, in either convention,
and names a path. If there is a JSON file with an object in it and finite numbers only, if the
settings that are asked for are allowed, and if every property to leave out has a name, then the run
agrees with the library. If there is no schema at the path, the run exits with another code and
prints nothing, whatever the mode. A file with a surrogate that stands alone holds no document and
is not missing either; nothing is said of it. -/
theorem run_modes {c : Convention} {words : List String} {a : Arguments}
    (hwords : read c words = .ok a) {around : Surroundings} {path : Path}
    (hpath : a.path around = .ok path) :
    let r := run c words around
    (∀ (bytes : List UInt8) (schema : Fields) (settings : Settings),
      path.extension = ".json" → around.find path = .file bytes →
      SchemaFile.document? path bytes = some (.map schema) →
      (Value.map schema).isTreeOf Scalar.isFinite = true →
      Settings.ofValue a.settingsDocument = .ok settings → Given.nothing ∉ a.virtual →
        a.Agrees settings schema r) ∧
    (SchemaFile.Missing path (around.find path) → r.Exits 4 ∧ r.output = "") := by
  intro r
  have hbegin : Job.begin c words around = Job.loaded a path (around.find path) := by
    simp only [Job.begin, hwords, hpath]
  refine ⟨fun bytes schema settings hjson hfind hdocument hfinite hsettings hvirtual => ?_,
    fun hmissing => ?_⟩
  · let job : Job := ⟨a, settings, path, schema,
      [.schemaFile path.shown, .overridesBeginWith settings.overridePrefix]⟩
    have hjob : Job.begin c words around = .ok job := by
      rw [hbegin, hfind]
      simp [Job.loaded, SchemaFile.load_of_document? hjson hdocument, Job.configured, hsettings,
        job]
    have hrun : r = job.run := by simp only [r, run, hjob]
    have hagrees : job.arguments.Agrees job.settings job.schema job.run :=
      Job.agrees_run (Settings.isValid_of_ofValue hsettings) (a.foreignKey_eq hsettings)
        (SchemaFile.isExact_of_document? hjson hdocument hfinite) hvirtual
    rw [hrun]
    exact hagrees
  · obtain ⟨e, hload, hexpected⟩ := SchemaFile.load_of_missing hmissing
    have hrun : r = a.ended (.exit .unusable) [.loadFailed e.message] := by
      simp [r, run, hbegin, Job.loaded, hload, hexpected]
    rw [hrun]
    exact ⟨Job.exits_ended_iff.mpr rfl, rfl⟩

/-- A parcel with a sender and a receiver, who have one model. -/
def parcelSchema : Fields :=
  [(.text "$id", .text "parcel"),
    (.text "properties", .object
      [("weight", .object [("type", .text "number"), ("minimum", .real ⟨0x3fb999999999999a⟩)]),
        ("sender", .object [("$id", .text "person")]),
        ("receiver", .object [("$id", .text "person"), ("title", .text "person")])])]

/-- The schema as it is written in a file. -/
def parcelText : List Char :=
  Json.written (.indented 0) (.map parcelSchema) ++ ['\n']

def parcelFile : List UInt8 :=
  parcelText.map fun c => c.toNat.toUInt8

/-- What is asked for by the name of the file alone. -/
def parcelArguments : Arguments :=
  { schema := some (.text "a.json") }

/-- Where the file is. -/
def parcelPath : Path :=
  ⟨"", ["home", "a.json"]⟩

/-- A system without links, and what is found there. -/
def home (found : Found) : Surroundings where
  folder := ⟨"", ["home"]⟩
  find _ := found

/-- The receiver, as it is compiled. -/
def receiver : Descriptor Nat where
  modelName := "person"
  tableName := "person"
  schema := [(.text "$id", .text "person"), (.text "title", .text "person"),
    (.text "properties", .map [])]

theorem path_parcelArguments (found : Found) :
    parcelArguments.path (home found) = .ok parcelPath := by
  have hsplit : "a.json".splitOn "/" = ["a.json"] := by
    unfold String.splitOn
    rw [if_neg (by decide)]
    iterate 6 rw [String.splitOnAux, if_neg (by decide), if_neg (by decide)]
    rw [String.splitOnAux, if_pos (by decide)]
    rfl
  have hnames : Path.namesOf "a.json" = ["a.json"] := by
    rw [Path.namesOf, hsplit]
    decide
  have hpath : Path.ofText ⟨"", ["home"]⟩ "a.json" = ⟨"", ["home", "a.json"]⟩ := by
    simp [Path.ofText, hnames]
  have hname : "a.json".toList.contains '\x00' = false := by decide
  simp only [Arguments.path, parcelArguments, home, hname, hpath]
  rfl

theorem document?_parcelFile :
    SchemaFile.document? parcelPath parcelFile = some (.map parcelSchema) := by
  have hjson : parcelPath.extension = ".json" := by decide +kernel
  have htext : SchemaFile.text parcelFile = .ok (String.ofList parcelText) := by
    have hdecode : Text.Utf8.characters parcelFile.length 0 parcelFile = .ok parcelText := by
      decide +kernel
    have hlines : SchemaFile.unifyLines parcelText = parcelText := by decide +kernel
    simp only [SchemaFile.text, Text.Utf8.decode, hdecode, Except.map, String.toList_ofList, hlines]
  have hread : Json.read (String.ofList parcelText) = .ok (.map parcelSchema) := by
    have hexact : (Value.map parcelSchema).isExact = true := by decide +kernel
    rw [Json.read, String.toList_ofList]
    exact Json.readChars_written (.indented 0) hexact (by simp [Json.AllBlank, Json.isBlank])
  simp only [SchemaFile.document?, htext, hjson, hread]
  rfl

/-- The models of the file are printed: of the two persons the last one. There is nothing to print
without it. -/
theorem run_modes_parcel :
    let words := ["-s", "a.json"]
    let around := home (.file parcelFile)
    let r := run .newer words around
    (read .newer words = .ok parcelArguments ∧ parcelArguments.path around = .ok parcelPath ∧
      parcelPath.extension = ".json" ∧
      SchemaFile.document? parcelPath parcelFile = some (.map parcelSchema) ∧
      (Value.map parcelSchema).isTreeOf Scalar.isFinite = true ∧
      Settings.ofValue parcelArguments.settingsDocument = .ok {} ∧
      Given.nothing ∉ parcelArguments.virtual) ∧
    (r.Exits 0 ∧ ∃ es, Json.read r.output = .ok (.map es) ∧
      Entries.keys es = [.text "person", .text "parcel"] ∧
        Entries.get? (.text "person") es = some receiver.dump) ∧
    (run .older words (home .nothing)).Exits 4 := by
  intro words around r
  have hwords : ∀ c, read c words = .ok parcelArguments := by
    rintro (_ | _) <;> decide +kernel
  have hjson : parcelPath.extension = ".json" := by decide +kernel
  have hfinite : (Value.map parcelSchema).isTreeOf Scalar.isFinite = true := by decide +kernel
  have hsettings : Settings.ofValue parcelArguments.settingsDocument = .ok {} := by rfl
  have hvirtual : Given.nothing ∉ parcelArguments.virtual := by decide
  have hagrees : parcelArguments.Agrees {} parcelSchema r :=
    (run_modes (hwords .newer) (path_parcelArguments _)).1 parcelFile parcelSchema {} hjson rfl
      document?_parcelFile hfinite hsettings hvirtual
  have hvalid : (Override.checkAll {} parcelSchema).isValid = true := by rfl
  have hexits : r.Exits 0 := by
    refine (hagrees.compiles rfl).1.mpr ⟨hvalid, ?_⟩
    rintro ⟨t, ht, name, hrepeats⟩
    have hnames : ∀ t ∈ (Tree.ofFields parcelSchema).tables, t.2.siteNames.Nodup := by
      decide +kernel
    exact Tree.not_nodup_of_repeats hrepeats (hnames t ht)
  obtain ⟨es, hread, hshows⟩ := hagrees.prints rfl rfl hexits
  refine ⟨⟨hwords .newer, path_parcelArguments _, hjson, document?_parcelFile, hfinite, hsettings,
    hvirtual⟩, ⟨hexits, es, hread, ?_, ?_⟩, ?_⟩
  · exact hshows.keys
  · obtain ⟨sender, parcel, htables, hparcel⟩ : ∃ sender parcel, (NestedTables.compile
        ({ Binder.counting with virtual := parcelArguments.virtualNames } : Binder Nat Empty) {}
          (.map parcelSchema)).tables = [sender] ++ receiver :: [parcel] ∧
        parcel.modelName = "parcel" := ⟨_, _, rfl, rfl⟩
    refine hshows.last [sender] receiver [parcel] htables fun d hd => ?_
    rw [List.mem_singleton.mp hd, hparcel]
    decide
  · exact ((run_modes (hwords .older) (path_parcelArguments .nothing)).2 .nothing).1

end CommandLine

end NestedTables
