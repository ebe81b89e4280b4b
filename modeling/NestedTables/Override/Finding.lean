import NestedTables.Log

/-!
# Findings and reports

A `Finding` is one remark about an override: an error or a warning, with a code, a message
and the data it is about, among which is the pointer to the node. A `Report` is a list of
findings in the order they were made. A report with an error in it refuses the schema, for
the reason that its first error gives.
-/

namespace NestedTables

/-- Why a schema cannot be compiled. -/
inductive SchemaError
  /-- An override is malformed. -/
  | override (detail : String) (pointer : Value)
  /-- An override names a join table that the schema does not have. -/
  | joinTable (detail : String) (pointer : Value)
  /-- Two relations of one table have the same name. -/
  | collision (relation : Scalar) (pointer : Value)
deriving Repr

namespace SchemaError

def detail : SchemaError → String
  | .override d _ | .joinTable d _ => d
  | .collision relation _ =>
    s!"Relation '{relation.plain}' is defined more than once on the same table"

/-- Where in the schema the error lies. -/
def pointer : SchemaError → Value
  | .override _ p | .joinTable _ p | .collision _ p => p

def message (e : SchemaError) : String :=
  s!"{e.detail} (at {e.pointer.plain})"

end SchemaError

/-- How heavy a finding is. -/
inductive Severity
  | error
  | warning
deriving DecidableEq, Repr

def Severity.name : Severity → String
  | .error => "error"
  | .warning => "warning"

/-- A remark about an override. -/
structure Finding where
  severity : Severity
  code : String
  message : String
  context : Fields := []
deriving Repr

namespace Finding

def isError (f : Finding) : Bool :=
  f.severity = .error

def isWarning (f : Finding) : Bool :=
  f.severity = .warning

/-- The pointer in the data of a finding; the root if there is none. -/
def pointer (f : Finding) : Value :=
  (f.context.value? "pointer").getD (.text "#")

/-- The finding in one line. -/
def shown (f : Finding) : String :=
  let label := match f.severity with
    | .error => "ERROR"
    | .warning => "WARNING"
  s!"[{label}] {f.code}: {f.message}"

/-- The code of the error that a join table is missing. -/
def joinTableCode : String := "JOIN_THROUGH_UNKNOWN_TABLE"

end Finding

/-- Findings in the order they were made. -/
structure Report where
  items : List Finding := []
deriving Repr

namespace Report

def add (r : Report) (f : Finding) : Report :=
  ⟨r.items ++ [f]⟩

def addError (r : Report) (code message : String) (context : Fields := []) : Report :=
  r.add ⟨.error, code, message, context⟩

def addWarning (r : Report) (code message : String) (context : Fields := []) : Report :=
  r.add ⟨.warning, code, message, context⟩

/-- The findings of a report followed by those of another. -/
def merge (r other : Report) : Report :=
  ⟨r.items ++ other.items⟩

def errors (r : Report) : List Finding :=
  r.items.filter Finding.isError

def warnings (r : Report) : List Finding :=
  r.items.filter Finding.isWarning

def errorCount (r : Report) : Nat :=
  r.items.countP Finding.isError

def warningCount (r : Report) : Nat :=
  r.items.countP Finding.isWarning

def hasErrors (r : Report) : Bool :=
  r.items.any Finding.isError

/-- Whether no finding is an error. -/
def isValid (r : Report) : Bool :=
  !r.hasErrors

def size (r : Report) : Nat :=
  r.items.length

def summary (r : Report) : String :=
  s!"Validation: {r.errorCount} error(s), {r.warningCount} warning(s), {r.size} total item(s)."

/-- The report in one line. -/
def shown (r : Report) : String :=
  s!"<ValidationResult {r.summary}>"

/-- A finding as a line of a report. -/
def line (f : Finding) : String :=
  let mark := if f.isError then "✗" else "⚠"
  s!"  {mark} [{f.code}] {f.message} (at {f.pointer.plain})"

/-- The report as a text: the summary, an empty line, and a line for every finding. -/
def written (r : Report) : String :=
  "\n".intercalate (r.summary :: "" :: r.items.map line)

/-- The error that a report refuses a schema with. -/
def refusal? (r : Report) : Option SchemaError :=
  match r.errors with
  | [] => none
  | first :: others =>
    let detail :=
      if others.isEmpty then first.message
      else s!"{first.message} [and {others.length} more error(s)]"
    some <|
      if first.code = Finding.joinTableCode then .joinTable detail first.pointer
      else .override detail first.pointer

/-- What is logged when a schema is accepted or refused: the warnings. -/
def warningEvents (r : Report) : List Event :=
  r.warnings.map fun w => .warned w.message w.pointer

end Report

end NestedTables
