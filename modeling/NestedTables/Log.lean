import NestedTables.Schema.Pointer
import NestedTables.Stopwatch

/-!
# What is logged

Every stage reports what it does as a list of `Event`s. An event is a fact, with the data it
is about; its level, the channel it is logged on and its wording are functions of it, so that
a reader of a log can ask for the facts and never has to look into texts.
-/

namespace NestedTables

inductive Level
  | debug
  | info
  | warning
  | error
deriving DecidableEq, Repr

def Level.name : Level → String
  | .debug => "DEBUG"
  | .info => "INFO"
  | .warning => "WARNING"
  | .error => "ERROR"

/-- The levels in ascending order of weight. -/
def Level.weight : Level → Nat
  | .debug => 10
  | .info => 20
  | .warning => 30
  | .error => 40

/-- The two groups of rules for override keys. -/
inductive RuleGroup
  | values
  | joins
deriving DecidableEq, Repr

def RuleGroup.name : RuleGroup → String
  | .values => "validate_annotation_values"
  | .joins => "validate_join_annotations"

/-- A fact that is logged. -/
inductive Event
  /-- A group of rules is about to be checked. -/
  | checking (rules : RuleGroup)
  /-- A group of rules has been checked, with so many findings. -/
  | checked (rules : RuleGroup) (findings : Nat)
  | checkPassed (summary : String)
  | checkFailed (summary : String)
  /-- A finding that does not stop the compilation. -/
  | warned (message : String) (pointer : Value)
  | nothingToCompile
  /-- A table under a keyword that is not visited. -/
  | notVisited (at_ : Pointer)
  /-- An array of tables whose relation belongs to no table. -/
  | notAttached (at_ : Pointer) (table : String)
  /-- A model has been registered before. -/
  | registeredAgain (model : String)
  | registered (table model : String) (at_ : Pointer) (relations : Nat)
  /-- A foreign-key column has been asked for before. -/
  | sharedColumn (table column : String)
  /-- A foreign-key column is a column of the table already. -/
  | reusedColumn (table column : String)
  | compiled (tables models : Nat)
  /-- A schema file whose name does not say what it holds. -/
  | unknownExtension (extension : String)
  | loadFailed (reason : String)
  | settingsRefused (reason : String)
  | schemaFile (path : String)
  | overridesBeginWith (start : String)
  | compilationFailed (reason : String)
  /-- An activity has ended. -/
  | timed (watch : Stopwatch)
deriving Repr

namespace Event

def level : Event → Level
  | .checking _ | .checked _ _ | .checkPassed _ | .nothingToCompile | .notVisited _
  | .notAttached _ _ | .registeredAgain _ | .registered .. | .sharedColumn _ _
  | .reusedColumn _ _ => .debug
  | .compiled _ _ | .unknownExtension _ | .schemaFile _ | .overridesBeginWith _ | .timed _ => .info
  | .warned _ _ => .warning
  | .checkFailed _ | .loadFailed _ | .settingsRefused _ | .compilationFailed _ => .error

/-- The channel that an event is logged on. -/
def channel : Event → String
  | .checking _ | .checked _ _ | .checkPassed _ | .checkFailed _ | .warned _ _ =>
    "relschema.validators"
  | .nothingToCompile | .notVisited _ | .notAttached _ _ | .registeredAgain _ | .registered ..
  | .sharedColumn _ _ | .reusedColumn _ _ | .compiled _ _ => "relschema.compiler"
  | .unknownExtension _ => "relschema.loader"
  | .timed _ => "relschema.utils"
  | .loadFailed _ | .settingsRefused _ | .schemaFile _ | .overridesBeginWith _
  | .compilationFailed _ => "relschema"

def message : Event → String
  | .checking rules => s!"Running validator: {rules.name}"
  | .checked rules n => s!"{rules.name}: {n} issue(s)."
  | .checkPassed summary => s!"Annotation validation passed. {summary}"
  | .checkFailed summary => s!"Annotation validation FAILED. {summary}"
  | .warned message pointer => s!"{message} (at {pointer.plain})"
  | .nothingToCompile => "Schema root is not a mapping; nothing to compile."
  | .notVisited p =>
    s!"Table schema at {p.written} is not under properties or items; it is not compiled."
  | .notAttached p table =>
    s!"Array at {p.written} has no enclosing table property; " ++
      s!"HasMany to '{table}' is not attached."
  | .registeredAgain model => s!"Model '{model}' is registered again; the later handle wins."
  | .registered table model p n =>
    s!"Registered table '{table}' as '{model}' from {p.written} ({n} relation(s))."
  | .sharedColumn table column =>
    s!"Foreign-key column '{table}.{column}' is shared by more than one relation."
  | .reusedColumn table column => s!"Reusing existing column '{table}.{column}'."
  | .compiled tables models => s!"Compiled {tables} table(s) into {models} model(s)."
  | .unknownExtension e => s!"Unknown extension '{e}', trying JSON then YAML."
  | .loadFailed reason => s!"Failed to load schema: {reason}"
  | .settingsRefused reason => s!"Invalid configuration override: {reason}"
  | .schemaFile path => s!"Schema:  {path}"
  | .overridesBeginWith start => s!"Prefix:  {start}"
  | .compilationFailed reason => s!"Compilation failed: {reason}"
  | .timed watch => s!"Timer [{watch.label}]: {watch.seconds} seconds"

/-- The event as a line of the log: its level in eight columns, its channel and its message. -/
def line (e : Event) : String :=
  let level := String.ofList (e.level.name.toList.rightpad 8 ' ')
  s!"{level} │ {e.channel} │ {e.message}"

end Event

end NestedTables
