import NestedTables.Proofs.CommandLine.Run
import NestedTables.Proofs.CommandLine.Understood

/-!
# The codes with which the program exits

Which code a run ends with is settled at three places, one after the other: where the command line
is read, where the schema and the settings are made ready, and where the work is done. The first
place has a code of its own, 2, for a command line that is not understood, and no later one gives
it (`CommandLine.exits_two_iff`). From there on the codes are 4, if there is no work to be done
(`Arguments.IsUnusable`), and 0 or 1.

Not every run gets that far. If all schemas are kept in JSON, a run breaks off in five ways
(`Arguments.BreaksOff`), and none of them is a fault of the schema: the path can be missing, no
name of a file, without a place to lead to, or shut by the system, and a property to leave out can
be missing. All other runs exit with one of the three codes (`CommandLine.run_exits`). Nothing is
missing if the command line is read by the newer of the two conventions (`Asks.path_of_breaksOff`).
The numbers in a schema need not be finite here, since the ones that are not are printed as null.
-/

namespace NestedTables.CommandLine

variable {c : Convention} {words : List String} {a : Arguments} {around : Surroundings}
  {path : Path} {schema : Fields} {settings : Settings} {log : List Event} {output : String}
  {code : Nat}

/-! ### Ends of runs -/

theorem Run.Exits.unique {r : Run} {code' : Nat} (h : r.Exits code) (h' : r.Exits code') :
    code = code' := by
  obtain ⟨c, hc, rfl⟩ := h
  obtain ⟨c', hc', rfl⟩ := h'
  exact congrArg ExitCode.toNat (Ending.exit.inj (hc.symm.trans hc'))

theorem not_exits_brokenOff (why : Breakdown) :
    ¬ (a.ended (.brokenOff why) log output).Exits code := by
  rintro ⟨c, hc, -⟩
  cases hc

namespace Job

variable {job : Job}

/-! ### The code for a command line that is not understood -/

theorem not_exits_two_print (models : Entries String Nat) (tables : List (Descriptor Nat)) :
    ¬ (job.print models tables log).Exits 2 := by
  unfold print
  simp only
  split
  · exact not_exits_brokenOff _
  · exact not_exits_brokenOff _
  · split
    · simp [exits_ended_iff, ExitCode.toNat]
    · exact not_exits_brokenOff _

theorem not_exits_two_compiled (outcome : Outcome Nat Empty) :
    ¬ (job.compiled outcome).Exits 2 := by
  unfold compiled
  simp only
  split
  · exact not_exits_brokenOff _
  · split
    · simp [exits_ended_iff, ExitCode.toNat]
    · exact not_exits_brokenOff _
    · exact not_exits_two_print _ _

theorem not_exits_two_compile : ¬ job.compile.Exits 2 := by
  unfold compile
  simp only
  split
  · exact not_exits_brokenOff _
  · split
    · exact not_exits_brokenOff _
    · exact not_exits_two_compiled _

theorem not_exits_two_check : ¬ job.check.Exits 2 := by
  unfold check
  simp only
  split
  · exact not_exits_brokenOff _
  · rw [exits_ended_iff]
    split <;> simp [ExitCode.toNat]

/-- Work that is done says nothing of the command line. -/
theorem not_exits_two_run : ¬ job.run.Exits 2 := by
  cases hmode : job.arguments.validateOnly with
  | true => exact run_eq_check hmode ▸ not_exits_two_check
  | false => exact run_eq_compile hmode ▸ not_exits_two_compile

theorem not_exits_two_of_loaded {found : Found} {r : Run} (h : loaded a path found = .error r) :
    ¬ r.Exits 2 := by
  unfold loaded configured at h
  split at h
  · split at h
    · obtain rfl := Except.error.inj h
      simp [exits_ended_iff, ExitCode.toNat]
    · cases h
  · obtain rfl := Except.error.inj h
    split
    · simp [exits_ended_iff, ExitCode.toNat]
    · exact not_exits_brokenOff _

/-! ### Work on a schema that has been read -/

/-- What is printed has to be written in JSON, where some numbers become null. -/
theorem exists_print_eq {models : Entries String Nat} {tables : List (Descriptor Nat)}
    (h : (Value.map (payload models tables)).isTreeOf Scalar.isReadable = true) :
    ∃ es, job.print models tables log =
      job.arguments.ended (.exit .success) log (inFormat job.arguments.format es) := by
  rw [Value.isTreeOf, Bool.and_eq_true] at h
  obtain ⟨es, hportable, -, hes⟩ := Value.exists_portableEntries_of_entriesTreeOf
    (fun _ => Scalar.exists_portable_of_isReadable) h.2
  have hwritable : Value.entriesWritable es = true :=
    Value.entriesWritable_of_entriesTreeOf (fun _ => Scalar.isWritable_of_isReadable) hes
  refine ⟨es, ?_⟩
  unfold print
  simp only [hportable, hwritable, if_true]

/-- **Work on a schema that has been read** is done, in both modes. -/
theorem exits_run (hset : job.settings.IsValid)
    (hforeign : job.settings.foreignKey = ({} : Settings).foreignKey)
    (htree : (Value.map job.schema).isTreeOf Scalar.isReadable = true)
    (hvirtual : job.arguments.validateOnly = false →
      (Override.checkAll job.settings job.schema).isValid = true →
        Given.nothing ∉ job.arguments.virtual) : job.run.Exits 0 ∨ job.run.Exits 1 := by
  have hwritable : ∀ s : Scalar, s.isReadable = true → s.isWritable = true :=
    fun _ => Scalar.isWritable_of_isReadable
  cases hmode : job.arguments.validateOnly with
  | true =>
    have hshown := Override.unwritable?_eq_none hwritable htree job.settings
    rw [run_eq_check hmode, exits_check_iff hshown, exits_check_iff hshown]
    cases (Override.checkAll job.settings job.schema).isValid <;> simp
  | false =>
    rw [run_eq_compile hmode]
    rcases compile_prints Scalar.passesTexts_isReadable hwritable hset hforeign htree
      (hvirtual hmode) with ⟨-, models, log, hpayload, -, hcompile⟩ | ⟨-, log, hcompile⟩
    · obtain ⟨es, hprint⟩ := exists_print_eq hpayload
      rw [hcompile, hprint]
      exact Or.inl (exits_ended_iff.mpr rfl)
    · rw [hcompile]
      exact Or.inr (exits_ended_iff.mpr rfl)

/-- A compilation breaks off at a property to leave out that is missing, or before. -/
theorem not_exits_compile (hvalid : (Override.checkAll job.settings job.schema).isValid = true)
    (hvirtual : Given.nothing ∈ job.arguments.virtual) : ¬ job.compile.Exits code := by
  have hnothing : job.arguments.virtual.contains .nothing = true := by simpa using hvirtual
  unfold compile
  simp only
  split
  · exact not_exits_brokenOff _
  · simp only [hvalid, hnothing, Bool.and_self, if_true]
    exact not_exits_brokenOff _

end Job

/-! ### The five ways to break off, and work that cannot be done -/

/-- Whether a run breaks off that has understood its command line. -/
inductive Arguments.BreaksOff (a : Arguments) (around : Surroundings) : Prop
  /-- The schema is not given by a text. -/
  | noPath (h : ∀ text, a.schema ≠ some (.text text))
  | noName {text : String} (h : a.schema = some (.text text)) (hnull : '\x00' ∈ text.toList)
  /-- The path goes round in links, or begins in a folder that is gone. -/
  | noPlace {text : String} (h : a.schema = some (.text text)) (hname : '\x00' ∉ text.toList)
      (hplace : around.resolve (Path.ofText around.folder text) = none)
  /-- The system does not let the schema be looked at or read. -/
  | shut {path : Path} (hpath : a.path around = .ok path) (hfind : (around.find path).isShut = true)
  /-- A schema that could be compiled, but one of the properties to leave out is not given by a
  text. -/
  | noVirtual {path : Path} {schema : Fields} {log : List Event} {settings : Settings}
      (hpath : a.path around = .ok path)
      (hload : SchemaFile.load path (around.find path) = (.ok schema, log))
      (hsettings : Settings.ofValue a.settingsDocument = .ok settings)
      (hmode : a.validateOnly = false)
      (hvalid : (Override.checkAll settings schema).isValid = true)
      (hvirtual : Given.nothing ∈ a.virtual)

/-- Whether there is no work to be done for a command line that is understood. -/
inductive Arguments.IsUnusable (a : Arguments) (around : Surroundings) : Prop
  /-- No schema is loaded, but not because the system shuts its path. -/
  | noSchema {path : Path} {e : SchemaFile.Failure} {log : List Event}
      (hpath : a.path around = .ok path) (hopen : (around.find path).isShut = false)
      (hload : SchemaFile.load path (around.find path) = (.error e, log))
  | settings {path : Path} {schema : Fields} {log : List Event} {problems : List Problem}
      (hpath : a.path around = .ok path)
      (hload : SchemaFile.load path (around.find path) = (.ok schema, log))
      (hsettings : Settings.ofValue a.settingsDocument = .error problems)

section Understood

variable (hread : read c words = .ok a)

include hread

theorem run_of_path {why : Breakdown} (hpath : a.path around = .error why) :
    run c words around = a.ended (.brokenOff why) [] := by
  simp only [run, Job.begin, hread, hpath]

theorem run_of_load {e : SchemaFile.Failure} (hpath : a.path around = .ok path)
    (hload : SchemaFile.load path (around.find path) = (.error e, log)) :
    run c words around =
      if e.isExpected then a.ended (.exit .unusable) (log ++ [.loadFailed e.message])
      else a.ended (.brokenOff (.loading e)) log := by
  simp only [run, Job.begin, hread, hpath, Job.loaded, hload]

theorem run_of_settings {problems : List Problem} (hpath : a.path around = .ok path)
    (hload : SchemaFile.load path (around.find path) = (.ok schema, log))
    (hsettings : Settings.ofValue a.settingsDocument = .error problems) :
    run c words around = a.ended (.exit .unusable)
      (log ++ [.settingsRefused (Arguments.problemsShown problems)]) := by
  simp only [run, Job.begin, hread, hpath, Job.loaded, hload, Job.configured, hsettings]

theorem exists_run_eq (hpath : a.path around = .ok path)
    (hload : SchemaFile.load path (around.find path) = (.ok schema, log))
    (hsettings : Settings.ofValue a.settingsDocument = .ok settings) :
    ∃ log', run c words around = Job.run ⟨a, settings, path, schema, log'⟩ := by
  refine ⟨log ++ [.schemaFile path.shown, .overridesBeginWith settings.overridePrefix], ?_⟩
  simp only [run, Job.begin, hread, hpath, Job.loaded, hload, Job.configured, hsettings]

/-- No code says that a run breaks off. -/
theorem not_exits_of_breaksOff (h : a.BreaksOff around) :
    ¬ (run c words around).Exits code := by
  cases h with
  | noPath h =>
    have hpath : a.path around = .error .noPath := by
      unfold Arguments.path
      split
      · next text heq => exact absurd heq (h text)
      · rfl
    rw [run_of_path hread hpath]
    exact not_exits_brokenOff _
  | noName h hnull =>
    have hcontains : List.contains _ '\x00' = true := List.contains_iff_mem.mpr hnull
    have hpath : a.path around = .error .noName := by
      simp only [Arguments.path, h, hcontains, if_true]
    rw [run_of_path hread hpath]
    exact not_exits_brokenOff _
  | noPlace h hname hplace =>
    have hcontains : List.contains _ '\x00' = false :=
      Bool.eq_false_iff.mpr (mt List.contains_iff_mem.mp hname)
    have hpath : a.path around = .error .noPlace := by
      simp only [Arguments.path, h, hcontains, Bool.false_eq_true, if_false, hplace,
        Option.elim_none]
    rw [run_of_path hread hpath]
    exact not_exits_brokenOff _
  | @shut path hpath hfind =>
    obtain ⟨e, hload, hexpected⟩ := SchemaFile.load_of_isShut path hfind
    rw [run_of_load hread hpath hload, hexpected]
    exact not_exits_brokenOff _
  | noVirtual hpath hload hsettings hmode hvalid hvirtual =>
    obtain ⟨log, hrun⟩ := exists_run_eq hread hpath hload hsettings
    rw [hrun, Job.run_eq_compile hmode]
    exact Job.not_exits_compile hvalid hvirtual

variable (hjson : ∀ path, a.path around = .ok path → SchemaFile.InJson path (around.find path))

include hjson

theorem exits_of_isUnusable (h : a.IsUnusable around) : (run c words around).Exits 4 := by
  cases h with
  | noSchema hpath hopen hload =>
    rw [run_of_load hread hpath hload, if_pos ((hjson _ hpath).isExpected hopen hload)]
    exact Job.exits_ended_iff.mpr rfl
  | settings hpath hload hsettings =>
    rw [run_of_settings hread hpath hload hsettings]
    exact Job.exits_ended_iff.mpr rfl

/-- **A run that has understood its command line** breaks off, has no work to do, or does it. -/
theorem ends_cases : a.BreaksOff around ∨ a.IsUnusable around ∨
    (run c words around).Exits 0 ∨ (run c words around).Exits 1 := by
  cases hpath : a.path around with
  | error why =>
    refine Or.inl ?_
    unfold Arguments.path at hpath
    split at hpath
    · next text hschema =>
      split at hpath
      · next hnull => exact .noName hschema (List.contains_iff_mem.mp hnull)
      · next hname =>
        cases hplace : around.resolve (Path.ofText around.folder text) with
        | none => exact .noPlace hschema (mt List.contains_iff_mem.mpr hname) hplace
        | some path =>
          rw [hplace] at hpath
          cases hpath
    · next hno => exact .noPath hno
  | ok path =>
    cases hload : SchemaFile.load path (around.find path) with
    | mk result log =>
      cases result with
      | error e =>
        cases hshut : (around.find path).isShut with
        | true => exact Or.inl (.shut hpath hshut)
        | false => exact Or.inr (Or.inl (.noSchema hpath hshut hload))
      | ok schema =>
        cases hsettings : Settings.ofValue a.settingsDocument with
        | error problems => exact Or.inr (Or.inl (.settings hpath hload hsettings))
        | ok settings =>
          by_cases hbreaks : a.validateOnly = false ∧
              (Override.checkAll settings schema).isValid = true ∧ Given.nothing ∈ a.virtual
          · obtain ⟨hmode, hvalid, hvirtual⟩ := hbreaks
            exact Or.inl (.noVirtual hpath hload hsettings hmode hvalid hvirtual)
          · obtain ⟨log', hrun⟩ := exists_run_eq hread hpath hload hsettings
            rw [hrun]
            exact Or.inr (Or.inr (Job.exits_run (Settings.isValid_of_ofValue hsettings)
              (a.foreignKey_eq hsettings) ((hjson path hpath).isTreeOf hload)
              fun hmode hvalid hvirtual => hbreaks ⟨hmode, hvalid, hvirtual⟩))

end Understood

/-- **By the newer convention** a run only breaks off for the path to the schema: no file has such a
name, the path leads nowhere, or the system shuts it. -/
theorem Asks.path_of_breaksOff (hasks : Asks .newer words a) (h : a.BreaksOff around) :
    (∃ text, a.schema = some (.text text) ∧
      ('\x00' ∈ text.toList ∨ around.resolve (Path.ofText around.folder text) = none)) ∨
        ∃ path, a.path around = .ok path ∧ (around.find path).isShut = true := by
  obtain ⟨⟨text, htext⟩, hvirtual⟩ := hasks.exists_text
  cases h with
  | noPath h => exact absurd htext (h text)
  | noName h hnull => exact Or.inl ⟨_, h, Or.inl hnull⟩
  | noPlace h _ hplace => exact Or.inl ⟨_, h, Or.inr hplace⟩
  | shut hpath hfind => exact Or.inr ⟨_, hpath, hfind⟩
  | noVirtual _ _ _ _ _ hnothing => exact absurd hnothing hvirtual

/-! ### All runs -/

/-- **The code for a command line that is not understood** is given for nothing else. -/
theorem exits_two_iff :
    (run c words around).Exits 2 ↔ ∃ reason, read c words = .error (.refused reason) := by
  unfold run Job.begin
  cases read c words with
  | error stop =>
    cases stop with
    | help | version => simp [Job.stopped, Run.Exits, ExitCode.toNat]
    | refused reason => simp [Job.stopped, Run.Exits, ExitCode.toNat]
  | ok a =>
    simp only [reduceCtorEq, exists_false, iff_false]
    cases a.path around with
    | error why => exact not_exits_brokenOff _
    | ok path =>
      simp only
      cases hloaded : Job.loaded a path (around.find path) with
      | error r => exact Job.not_exits_two_of_loaded hloaded
      | ok job => exact Job.not_exits_two_run

/-- An option that makes reading stop is no failure. -/
theorem exits_zero_of_stop {stop : Stop} (hread : read c words = .error stop)
    (hstop : ∀ reason, stop ≠ .refused reason) : (run c words around).Exits 0 := by
  simp only [run, Job.begin, hread]
  cases stop with
  | help | version => exact ⟨.success, rfl, rfl⟩
  | refused reason => exact absurd rfl (hstop reason)

/-- **The codes with which the program exits**, in both conventions for the command line. A command
line in which help or the version is come to makes a run exit with 0. Another one that is not
understood makes it exit with 2, and nothing else does. Take a command line that is understood, and
suppose that all schemas are kept in JSON, with no surrogates that stand alone. Then the run exits
with 0, 1 or 4, but for the five ways in which it breaks off; and it exits with 4 if and only if
there is no schema to work on, or the settings that are asked for are not allowed. -/
theorem run_exits (c : Convention) (words : List String) (around : Surroundings) :
    let r := run c words around
    (Reaches c words .help ∨ Reaches c words .version → r.Exits 0) ∧
    (r.Exits 2 ↔
      (∀ a, ¬ Asks c words a) ∧ ¬ Reaches c words .help ∧ ¬ Reaches c words .version) ∧
    ∀ a, Asks c words a →
      (∀ path, a.path around = .ok path → SchemaFile.InJson path (around.find path)) →
        ((r.Exits 0 ∨ r.Exits 1 ∨ r.Exits 4) ↔ ¬ a.BreaksOff around) ∧
        (r.Exits 4 ↔ a.IsUnusable around) := by
  intro r
  have hhelp : read c words = .error .help ↔ Reaches c words .help := read_eq_error_iff rfl
  have hversion : read c words = .error .version ↔ Reaches c words .version :=
    read_eq_error_iff rfl
  refine ⟨?_, ?_, fun a hasks hjson => ?_⟩
  · rintro (h | h)
    · exact exits_zero_of_stop (hhelp.mpr h) nofun
    · exact exits_zero_of_stop (hversion.mpr h) nofun
  · simp only [r, exits_two_iff, ← hhelp, ← hversion, ← read_eq_ok_iff]
    cases read c words with
    | ok a => simp
    | error stop => cases stop <;> simp
  · have hread := read_eq_ok_iff.mpr hasks
    have hcases := ends_cases hread hjson
    refine ⟨⟨?_, fun h => ?_⟩, fun h => ?_, exits_of_isUnusable hread hjson⟩
    · rintro (h | h | h) hbreaks
      all_goals exact not_exits_of_breaksOff hread hbreaks h
    · rcases hcases with hbreaks | hunusable | hdone | hdone
      · exact absurd hbreaks h
      · exact Or.inr (Or.inr (exits_of_isUnusable hread hjson hunusable))
      · exact Or.inl hdone
      · exact Or.inr (Or.inl hdone)
    · rcases hcases with hbreaks | hunusable | hdone | hdone
      · exact absurd h (not_exits_of_breaksOff hread hbreaks)
      · exact hunusable
      · cases h.unique hdone
      · cases h.unique hdone

/-- Words that are not understood: no schema, no value for it, a word that is no option, a format
that is none, and two options that exclude each other. -/
def misuses : List (List String) :=
  [[], ["-s"], ["-s", "a.json", "--bogus"], ["-s", "a.json", "--format", "xml"],
    ["-s", "a.json", "-v", "-q"]]

/-- The parcel is compiled. Where its file is not there the code is 4, and where the system shuts it
there is none. Help is given where a letter is left over, but by the newer convention only. -/
theorem run_exits_parcel :
    let words := ["-s", "a.json"]
    let exits (found : Found) := (run .newer words (home found)).Exits
    Asks .newer words parcelArguments ∧
    (∀ found ∈ [.nothing, .tooLong, .closed, .file parcelFile], ∀ path,
      parcelArguments.path (home found) = .ok path → SchemaFile.InJson path found) ∧
    (exits (.file parcelFile) 0 ∨ exits (.file parcelFile) 1) ∧ exits .nothing 4 ∧
    (∀ found ∈ [.tooLong, .closed], ¬ (exits found 0 ∨ exits found 1 ∨ exits found 4)) ∧
    (Reaches .newer ["-vx", "-h"] .help ∧
      (run .newer ["-vx", "-h"] (home .nothing)).Exits 0) ∧
    (run .older ["-vx", "-h"] (home .nothing)).Exits 2 ∧
    ∀ words ∈ misuses, (run .newer words (home .nothing)).Exits 2 := by
  intro words exits
  have hasks : Asks .newer words parcelArguments := read_eq_ok_iff.mp (by decide +kernel)
  have hjson : parcelPath.extension = ".json" := by decide +kernel
  have hwhole := SchemaFile.not_hasLoneSurrogate_of_document? hjson document?_parcelFile
  have hpath : ∀ found path, parcelArguments.path (home found) = .ok path → path = parcelPath :=
    fun found path h => Except.ok.inj (h.symm.trans (path_parcelArguments found))
  have hkept : ∀ found ∈ [.nothing, .tooLong, .closed, .file parcelFile], ∀ path,
      parcelArguments.path (home found) = .ok path → SchemaFile.InJson path found := by
    intro found hfound path h
    simp only [List.mem_cons, List.not_mem_nil, or_false] at hfound
    rcases hfound with rfl | rfl | rfl | rfl
    · exact .nothing
    · exact .shut rfl
    · exact .shut rfl
    · exact .named (hpath _ path h ▸ hjson) hwhole
  have hload := SchemaFile.load_of_document? hjson document?_parcelFile
  have hread : read .newer ["-vx", "-h"] = .error .help := by decide +kernel
  have hhelp : Reaches .newer ["-vx", "-h"] .help := (read_eq_error_iff rfl).mp hread
  have hmisused : ∀ c words, (read c words).toOption = none ∧ read c words ≠ .error .help ∧
      read c words ≠ .error .version → (run c words (home .nothing)).Exits 2 := by
    rintro c words ⟨hnone, hhelp, hversion⟩
    refine (run_exits c words (home .nothing)).2.1.mpr ⟨fun a h => ?_, fun h => ?_, fun h => ?_⟩
    · rw [read_eq_ok_iff.mpr h] at hnone
      cases hnone
    · exact hhelp ((read_eq_error_iff rfl).mpr h)
    · exact hversion ((read_eq_error_iff rfl).mpr h)
  refine ⟨hasks, hkept, ?_, ?_, ?_, ⟨hhelp, (run_exits .newer _ (home .nothing)).1 (Or.inl hhelp)⟩,
    hmisused .older _ (by decide +kernel), fun words hwords => hmisused .newer words ?_⟩
  · obtain ⟨hcodes, hunusable⟩ :=
      (run_exits .newer words (home (.file parcelFile))).2.2 _ hasks (hkept _ (by simp))
    have hends : ¬ parcelArguments.BreaksOff (home (.file parcelFile)) := by
      intro h
      cases h with
      | noPath h => exact h "a.json" rfl
      | noName h hnull =>
        obtain rfl := Given.text.inj (Option.some.inj h)
        exact absurd hnull (by decide)
      | noPlace _ _ hplace => cases hplace
      | shut _ hfind => cases hfind
      | noVirtual _ _ _ _ _ hvirtual => cases hvirtual
    have husable : ¬ parcelArguments.IsUnusable (home (.file parcelFile)) := by
      intro h
      cases h with
      | noSchema h _ hfails =>
        obtain rfl := hpath _ _ h
        cases hload.symm.trans hfails
      | settings _ _ hsettings => cases hsettings
    rcases hcodes.mpr hends with h | h | h
    · exact Or.inl h
    · exact Or.inr h
    · exact absurd (hunusable.mp h) husable
  · exact ((run_exits .newer words (home .nothing)).2.2 _ hasks (hkept _ (by simp))).2.mpr
      (.noSchema (path_parcelArguments _) rfl rfl)
  · intro found hfound
    simp only [List.mem_cons, List.not_mem_nil, or_false] at hfound
    rcases hfound with rfl | rfl
    · rw [((run_exits .newer words (home .tooLong)).2.2 _ hasks
        (hkept _ (by simp))).1, not_not]
      exact .shut (path_parcelArguments _) rfl
    · rw [((run_exits .newer words (home .closed)).2.2 _ hasks
        (hkept _ (by simp))).1, not_not]
      exact .shut (path_parcelArguments _) rfl
  · have hrefused : ∀ words ∈ misuses, (read .newer words).toOption = none ∧
        read .newer words ≠ .error .help ∧ read .newer words ≠ .error .version := by
      decide +kernel
    exact hrefused words hwords

/-- Without any words there is no schema, by either convention. The code is neither 0, 1 nor 4.
There is none for a schema whose path is too long. -/
theorem run_exits_otherwise :
    let r (c : Convention) := run c [] (home .nothing)
    (∀ c, read c [] = .error (.refused .schemaMissing) ∧ (r c).Exits 2 ∧
      ¬ ((r c).Exits 0 ∨ (r c).Exits 1 ∨ (r c).Exits 4)) ∧
    ∀ c code, ¬ (run c ["-s", "a.json"] (home .tooLong)).Exits code := by
  intro r
  refine ⟨fun c => ?_, fun c code => ?_⟩
  · have hread : read c [] = .error (.refused .schemaMissing) := by cases c <;> decide +kernel
    have htwo : (r c).Exits 2 := exits_two_iff.mpr ⟨_, hread⟩
    refine ⟨hread, htwo, ?_⟩
    rintro (h | h | h)
    all_goals cases htwo.unique h
  · have hwords : read c ["-s", "a.json"] = .ok parcelArguments := by cases c <;> decide +kernel
    exact not_exits_of_breaksOff hwords (.shut (path_parcelArguments _) rfl)

end NestedTables.CommandLine
