import NestedTables.CommandLine.Arguments
import NestedTables.Compile
import NestedTables.Document.Portable
import NestedTables.Json.Writer
import NestedTables.Storage.SchemaFile
import NestedTables.Yaml.Writer

/-!
# The program

The program loads the schema file that its command line names. It either checks the overrides
of the schema and prints a report, or compiles the schema and prints the descriptors of its
models.

A run is a function of the convention by which the command line is read, its words, and what the
system says of paths (`Surroundings`). It has two halves: `Job.begin` settles everything up to the
schema, and `Job.run` does the work, which alone is worth timing. `run` puts them together.
-/

namespace NestedTables.CommandLine

/-- What the system says of paths. -/
structure Surroundings where
  /-- The folder in which the program is started. -/
  folder : Path
  /-- The path to which a path leads. There is none where links go round in a circle, or the folder
  is gone. Where there are no links, only the names count. -/
  resolve : Path → Option Path := fun p => some p.resolved
  find : Path → Found

/-- The codes with which the program exits. -/
inductive ExitCode
  | success
  /-- The schema was refused. -/
  | refused
  /-- The words of the command line were not understood. -/
  | misused
  /-- There is no usable schema, or the settings are not allowed. -/
  | unusable
deriving DecidableEq, Repr

def ExitCode.toNat : ExitCode → Nat
  | .success => 0
  | .refused => 1
  | .misused => 2
  | .unusable => 4

/-- Why the program breaks off without having foreseen it. -/
inductive Breakdown
  /-- The command line gives no path to the schema. -/
  | noPath
  /-- The path to the schema holds a character that no name of a file has. -/
  | noName
  /-- The path to the schema leads to no other path. -/
  | noPlace
  /-- The schema cannot be loaded, but not for what is wrong with its file. -/
  | loading (failure : SchemaFile.Failure)
  /-- One of the properties to leave out is not given. -/
  | noVirtual
  /-- The compilation failed, but not for an error of the schema. -/
  | compilation (failure : Failure Empty)
  /-- The descriptors hold bytes that are no text. -/
  | notPortable
  /-- An integer is too long to be written. -/
  | tooLong

/-- The end of a run. -/
inductive Ending
  | exit (code : ExitCode)
  | brokenOff (why : Breakdown)

/-- What can be seen of a run. -/
structure Run where
  ending : Ending
  output : String := ""
  /-- What is said about the command line. -/
  complaint : String := ""
  /-- The logged events, as far as they were asked for. -/
  log : List Event := []

namespace Run

/-- The run with the time that the timed activities took. -/
def took (r : Run) (elapsed : Nat) : Run :=
  { r with log := r.log.map fun e => match e with
      | .timed watch => .timed { watch with elapsed := elapsed }
      | e => e }

/-- What the run writes beside its output, as lines: the complaint, or the log. -/
def messages (r : Run) : String :=
  r.complaint ++ lines (r.log.map Event.line)

end Run

/-! ### What is logged -/

/-- What is given as a document: an empty list for nothing. -/
def Given.value : Given → Value
  | .text s => .text s
  | .nothing => .list []

/-- The text that is given. -/
def Given.text? : Given → Option String
  | .text s => some s
  | .nothing => none

namespace Arguments

/-- Whether an event is logged. -/
def logs (a : Arguments) (e : Event) : Bool :=
  let least : Level := match a.verbosity with
    | 0 => .warning
    | 1 => .info
    | _ => .debug
  !a.quiet && least.weight ≤ e.level.weight

/-- A run that has ended, with the log that was asked for. -/
def ended (a : Arguments) (ending : Ending) (log : List Event) (output : String := "") : Run :=
  { ending := ending, output := output, log := log.filter a.logs }

/-- The settings that a command line asks for, as a document. -/
def settingsDocument (a : Arguments) : Value :=
  .object <|
    (a.overridePrefix.toList.map fun g => ("annotation_prefix", g.value)) ++
      a.idColumn.toList.map fun g => ("default_id_column", g.value)

/-- The path of the schema file. -/
def path (a : Arguments) (around : Surroundings) : Except Breakdown Path :=
  match a.schema with
  | some (.text s) =>
    if s.toList.contains '\x00' then .error .noName
    else (around.resolve (Path.ofText around.folder s)).elim (.error .noPlace) .ok
  | _ => .error .noPath

/-- The names of the properties to leave out. -/
def virtualNames (a : Arguments) : List String :=
  a.virtual.filterMap Given.text?

/-- Problems with settings in words. -/
def problemsShown (ps : List Problem) : String :=
  "; ".intercalate <| ps.map fun p =>
    ".".intercalate (p.path.map Scalar.plain) ++ ": " ++ p.flaw.message

end Arguments

/-! ### The work -/

/-- The work that is left when the schema is there. -/
structure Job where
  arguments : Arguments
  settings : Settings
  path : Path
  schema : Fields
  /-- What has been logged so far. -/
  log : List Event := []

namespace Job

/-- The end of a command line that asks for no work. -/
def stopped : Stop → Run
  | .help => { ending := .exit .success, output := help }
  | .version => { ending := .exit .success, output := lines [version] }
  | .refused r =>
    { ending := .exit .misused, complaint := usage ++ lines [s!"{program}: error: {r.message}"] }

/-- The settings for a loaded schema. -/
def configured (a : Arguments) (path : Path) (schema : Fields) (log : List Event) :
    Except Run Job :=
  match Settings.ofValue a.settingsDocument with
  | .error ps =>
    .error (a.ended (.exit .unusable) (log ++ [.settingsRefused (Arguments.problemsShown ps)]))
  | .ok settings =>
    .ok ⟨a, settings, path, schema,
      log ++ [.schemaFile path.shown, .overridesBeginWith settings.overridePrefix]⟩

/-- Loads the schema at a path. -/
def loaded (a : Arguments) (path : Path) (found : Found) : Except Run Job :=
  match SchemaFile.load path found with
  | (.ok schema, log) => configured a path schema log
  | (.error e, log) =>
    .error <|
      if e.isExpected then a.ended (.exit .unusable) (log ++ [.loadFailed e.message])
      else a.ended (.brokenOff (.loading e)) log

/-- Everything up to the schema: the work that a command line asks for, or the end of a run that
has none. -/
def begin (c : Convention) (words : List String) (around : Surroundings) : Except Run Job :=
  match read c words with
  | .error stop => .error (stopped stop)
  | .ok a =>
    match a.path around with
    | .error why => .error (a.ended (.brokenOff why) [])
    | .ok path => loaded a path (around.find path)

/-- A line of the report that separates its parts. -/
def rule : String :=
  String.ofList (List.replicate 50 '=')

/-- What is printed about the overrides of a schema. -/
def checkReport (name : String) (tables : Nat) (report : Report) : String :=
  let answer := if report.isValid then "Yes" else "No"
  lines <|
    ["", rule, "  Annotation Validation Report", rule, s!"  File:     {name}",
      s!"  Tables:   {tables}", s!"  Valid:    {answer}"] ++
    (if report.size = 0 then [] else ["", report.written]) ++
    [rule, ""]

/-- What is logged of a check that ends at the first finding that is too long to be written,
which is one of a group of rules. -/
def eventsUpTo (group : RuleGroup) (events : List Event) : List Event :=
  events.takeWhile fun e => match e with
    | .checked g _ => g ≠ group
    | _ => true

/-- Checks the overrides. -/
def check (job : Job) : Run :=
  let report := Override.checkAll job.settings job.schema
  let events := Override.checkEvents job.settings job.schema
  let a := job.arguments
  match Override.unwritable? job.settings job.schema with
  | some group => a.ended (.brokenOff .tooLong) (job.log ++ eventsUpTo group events)
  | none =>
    a.ended (.exit (if report.isValid then .success else .refused)) (job.log ++ events)
      (checkReport job.path.name (job.schema.tableNames job.settings).length report)

/-- The binder of a compilation whose tables are only printed. -/
def binder (job : Job) : Binder Nat Empty :=
  { Binder.counting with virtual := job.arguments.virtualNames }

/-- The descriptors of the models that were compiled, by the names of the models. A model that
was registered more than once has the last of its descriptors. -/
def payload (models : Entries String Nat) (tables : List (Descriptor Nat)) : Fields :=
  models.filterMap fun m => tables[m.2]?.map fun d => (.text m.1, d.dump)

/-- A document in the language of the output. -/
def inFormat (format : String) (es : Fields) : String :=
  if format = "yaml" then Yaml.write es else lines [Json.writeIndented (.map es)]

/-- Prints the models of a compilation. -/
def print (job : Job) (models : Entries String Nat) (tables : List (Descriptor Nat))
    (log : List Event) : Run :=
  let a := job.arguments
  match Value.portableEntries (payload models tables) with
  | .error .notText => a.ended (.brokenOff .notPortable) log
  | .error .keyTooLong => a.ended (.brokenOff .tooLong) log
  | .ok es =>
    if Value.entriesWritable es then a.ended (.exit .success) log (inFormat a.format es)
    else a.ended (.brokenOff .tooLong) log

/-- Whether an event can be written. -/
def isWritable : Event → Bool
  | .notVisited p => p.isWritable
  | _ => true

/-- The end of a compilation. One that has to log what is too long to be written ends right
there. -/
def compiled (job : Job) (outcome : Outcome Nat Empty) : Run :=
  let a := job.arguments
  let timed := Event.timed ⟨"compile", 0⟩
  let log := job.log ++ outcome.log.takeWhile isWritable ++ [timed]
  if !outcome.log.all isWritable then a.ended (.brokenOff .tooLong) log
  else match outcome.result with
    | .error (.schema e) => a.ended (.exit .refused) (log ++ [.compilationFailed e.message])
    | .error e => a.ended (.brokenOff (.compilation e)) log
    | .ok models => job.print models outcome.tables log

/-- Compiles the schema. The overrides are checked before anything else is looked at. -/
def compile (job : Job) : Run :=
  let a := job.arguments
  let events := Override.checkEvents job.settings job.schema
  let report := Override.checkAll job.settings job.schema
  let timed := Event.timed ⟨"compile", 0⟩
  match Override.unwritable? job.settings job.schema with
  | some group => a.ended (.brokenOff .tooLong) (job.log ++ eventsUpTo group events ++ [timed])
  | none =>
    if report.isValid && a.virtual.contains .nothing then
      a.ended (.brokenOff .noVirtual) (job.log ++ events ++ report.warningEvents ++ [timed])
    else job.compiled (NestedTables.compile job.binder job.settings (.map job.schema))

/-- Does the work. -/
def run (job : Job) : Run :=
  if job.arguments.validateOnly then job.check else job.compile

end Job

/-- Runs the program. -/
def run (c : Convention) (words : List String) (around : Surroundings) : Run :=
  match Job.begin c words around with
  | .error r => r
  | .ok job => job.run

end NestedTables.CommandLine
