import NestedTables.Calendar.Iso
import NestedTables.Document.Display
import NestedTables.Identifier
import NestedTables.Schema.ColumnRef

/-!
# Columns

What a database knows of a column: its type, its default, whether it may be null, and the
column it refers to. Type and default of a declared column are read off the schema of its
property. The two agree: a text that is the default of a moment, a date or an identifier is
read as one, and a text that cannot be read so is refused.

The schema of a property is a document, so its `type` and `format` need not be texts. A list
of types counts as the first of them that is not `null`. A value that cannot be the key of a
mapping cannot be looked up among the known types, and is refused; any other unknown type is
stored as JSON.
-/

namespace NestedTables

/-- The type of a column. -/
inductive ColumnType
  | integer
  | float
  | boolean
  /-- A text, perhaps of limited length. The limit is an integer or a truth value. -/
  | string (limit : Option Scalar)
  | json
  | moment
  | date
  | identifier
deriving DecidableEq, Repr

/-- The name of a column type. -/
def ColumnType.name : ColumnType → String
  | .integer => "Integer"
  | .float => "Float"
  | .boolean => "Boolean"
  | .string _ => "String"
  | .json => "JSON"
  | .moment => "DateTime"
  | .date => "Date"
  | .identifier => "Uuid"

/-- What a column holds when nothing is given for it. -/
inductive ColumnDefault
  | value (v : Value)
  | moment (t : Timestamp)
  | date (d : Date)
  | identifier (u : Identifier)
deriving Repr

/-- Why a property cannot be a column. -/
inductive ColumnFault
  /-- A type or format that cannot be looked up. -/
  | notAKey
  /-- A default that is not what its format asks for. -/
  | unreadable (written format : String)
deriving DecidableEq, Repr

/-- What is said of a default that cannot be read. -/
def ColumnFault.refusal (written format : String) : String :=
  s!"Default {Text.quoted written} is not a valid '{format}' value."

namespace Value

/-- Whether a value can be the key of a mapping. -/
def canBeKey : Value → Bool
  | .scalar _ => true
  | .pair a b => canBeKey a && canBeKey b
  | _ => false

/-- Whether a value is a given text. -/
def isText (s : String) (v : Value) : Bool :=
  v.text? = some s

end Value

namespace Property

/-- The type that a property declares: of a list, the first that is not `null`. -/
def declaredType (property : Fields) : Value :=
  match property.value "type" with
  | .list types => (types.find? fun t => !t.isText "null").getD .null
  | v => v

/-- What a type that has no format is stored as. -/
def plainType : String → ColumnType
  | "integer" => .integer
  | "number" => .float
  | "boolean" => .boolean
  | "string" => .string none
  | _ => .json

/-- The kinds of texts that have a type of their own. -/
inductive Format
  | moment
  | date
  | identifier
deriving DecidableEq, Repr

namespace Format

def ofName? : String → Option Format
  | "date-time" => some .moment
  | "date" => some .date
  | "uuid" => some .identifier
  | _ => none

def columnType : Format → ColumnType
  | .moment => .moment
  | .date => .date
  | .identifier => .identifier

/-- A text with a final `Z`, in either case, replaced by the offset that it stands for. -/
def withNumericOffset (s : String) : String :=
  match s.toList.getLast? with
  | some 'Z' | some 'z' => String.ofList s.toList.dropLast ++ "+00:00"
  | _ => s

/-- Reads a text in a format. -/
def read? (f : Format) (s : String) : Option ColumnDefault :=
  match f with
  | .moment => (Timestamp.ofIso? (withNumericOffset s)).map .moment
  | .date => (Date.ofIso? s).map .date
  | .identifier => (Identifier.ofText? s).map .identifier

end Format

/-- The format of a property, if it is a known one, and its name. -/
def format? (property : Fields) : Except ColumnFault (Option (String × Format)) :=
  let v := property.value "format"
  if !v.canBeKey then .error .notAKey
  else .ok <| v.text?.bind fun name => (Format.ofName? name).map (name, ·)

/-- The limit on the length of a text. -/
def limit? (property : Fields) : Option Scalar :=
  match property.value "maxLength" with
  | .scalar s => if s.integer?.isSome then some s else none
  | _ => none

/-- The type of the column of a property. -/
def columnType (property : Fields) : Except ColumnFault ColumnType :=
  let declared := declaredType property
  if declared.isText "string" then
    match format? property with
    | .error e => .error e
    | .ok (some (_, f)) => .ok f.columnType
    | .ok none => .ok (.string (limit? property))
  else if !declared.canBeKey then .error .notAKey
  else .ok ((declared.text?.map plainType).getD .json)

/-- The default of the column of a property; null if it has none. -/
def columnDefault (property : Fields) : Except ColumnFault ColumnDefault :=
  match property.value "default", (declaredType property).isText "string" with
  | .text s, true =>
    match format? property with
    | .error e => .error e
    | .ok none => .ok (.value (.text s))
    | .ok (some (name, f)) =>
      match f.read? s with
      | some d => .ok d
      | none => .error (.unreadable s name)
  | v, _ => .ok (.value v)

end Property

/-- A column of a table. -/
structure Column where
  name : String
  type : ColumnType := .integer
  isIdentity : Bool := false
  nullable : Bool := true
  default : Option ColumnDefault := none
  /-- The column that this one refers to, as it is written. -/
  refersTo : Option String := none
deriving Repr

namespace Column

/-- The identity column of a table: an integer that the database counts up. -/
def identity (name : String) : Column where
  name := name
  isIdentity := true
  nullable := false

/-- A column that only refers to another one. -/
def reference (name target : String) : Column where
  name := name
  refersTo := some target

/-- The column of a property. -/
def ofProperty (name : String) (property : Fields) (nullable : Bool) (refersTo : Option String) :
    Except ColumnFault Column :=
  match Property.columnType property, Property.columnDefault property with
  | .error e, _ | _, .error e => .error e
  | .ok type, .ok default =>
    .ok {
      name, type, nullable, refersTo
      default := match default with
        | .value .null => none
        | d => some d }

end Column

end NestedTables
