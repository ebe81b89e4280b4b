import NestedTables.Json.Reader
import NestedTables.Log
import NestedTables.Storage.Path
import NestedTables.Text.Utf8
import NestedTables.Yaml.Reader

/-!
# Schema files

A schema file holds one mapping, in JSON or in YAML. The extension of its name says which;
with any other extension the file is tried as JSON first and, if that fails, as YAML. Its
bytes are UTF-8, and the ends of its lines are unified before anything else is done.

Nothing here touches a disk: `SchemaFile.load` is told what is found at a path.
-/

namespace NestedTables

/-- What is found at a path. -/
inductive Found
  | nothing
  /-- A folder, or something else that is no file. -/
  | folder
  | file (bytes : List UInt8)
  /-- The path, or a name in it that has to be looked up, is too long to be looked at. -/
  | tooLong
  /-- The path may not be looked at, or the file there cannot be read. -/
  | closed
deriving DecidableEq, Repr

/-- The languages of schema files. -/
inductive SchemaFormat
  | json
  | yaml
deriving DecidableEq, Repr

namespace SchemaFile

/-- Why a schema cannot be loaded. -/
inductive Failure
  | missing (path : Path)
  | notFile (path : Path)
  /-- The path is too long to be looked at. -/
  | tooLong (path : Path)
  /-- The path may not be looked at, or the file there cannot be read. -/
  | closed (path : Path)
  | notUtf8 (failure : Text.Utf8.Failure)
  | notJson (path : Path) (reason : String)
  | notYaml (path : Path)
  /-- A scalar of a YAML file is not what its tag says. -/
  | notScalar (fault : Yaml.Fault)
  /-- A JSON file has an integer of so many digits that it is not read. -/
  | tooManyDigits (digits : Nat)
  /-- A surrogate stands alone in a text of the document, which is no text here. -/
  | loneSurrogate
  /-- The document is no mapping but a value of another kind. -/
  | notMapping (format : SchemaFormat) (kind : String)
deriving Repr

namespace Failure

def message : Failure → String
  | .missing path => s!"Schema file not found: {path.shown}"
  | .notFile path => s!"Schema path is not a file: {path.shown}"
  | .tooLong path => s!"File name too long: {path.shown}"
  | .closed path => s!"Permission denied: {path.shown}"
  | .notUtf8 f => f.message
  | .notJson path reason => s!"Invalid JSON in {path.shown}: {reason}"
  | .notYaml path => s!"Invalid YAML in {path.shown}"
  | .notScalar fault => fault.message?.getD ""
  | .tooManyDigits digits => Text.unreadable digits
  | .loneSurrogate => Json.Fault.loneSurrogate.message
  | .notMapping .json kind => s!"Expected a JSON object at top level, got {kind}."
  | .notMapping .yaml kind => s!"Expected a YAML mapping at top level, got {kind}."

/-- Whether a failure has been foreseen. Faults of scalars that are not told in words have not
been, and neither have paths that are too long or closed, nor surrogates that stand alone. -/
def isExpected : Failure → Bool
  | .notScalar fault => fault.message?.isSome
  | .tooLong _ | .closed _ | .loneSurrogate => false
  | _ => true

end Failure

/-- Turns every end of a line into a line feed. -/
def unifyLines : List Char → List Char
  | '\r' :: '\n' :: rest => '\n' :: unifyLines rest
  | '\r' :: rest => '\n' :: unifyLines rest
  | c :: rest => c :: unifyLines rest
  | [] => []

/-- The text of a file. -/
def text (bytes : List UInt8) : Except Failure String :=
  match Text.Utf8.decode bytes with
  | .ok s => .ok (String.ofList (unifyLines s.toList))
  | .error f => .error (.notUtf8 f)

/-- The entries of a document, which has to be a mapping. -/
def mapping (format : SchemaFormat) (v : Value) : Except Failure Fields :=
  match v with
  | .map entries => .ok entries
  | v => .error (.notMapping format v.kindName)

/-- Reads a file in one of the languages. -/
def readAs (format : SchemaFormat) (path : Path) (bytes : List UInt8) : Except Failure Fields :=
  match text bytes with
  | .error e => .error e
  | .ok s =>
    match format with
    | .json =>
      match Json.read s with
      | .ok v => mapping .json v
      | .error ⟨.tooManyDigits digits, _⟩ => .error (.tooManyDigits digits)
      | .error ⟨.loneSurrogate, _⟩ => .error .loneSurrogate
      | .error f => .error (.notJson path (f.message s.toList))
    | .yaml =>
      match Yaml.read s with
      | .ok v => mapping .yaml v
      | .error .malformed => .error (.notYaml path)
      | .error .loneSurrogate => .error .loneSurrogate
      | .error fault => .error (.notScalar fault)

/-- Reads a file in the language of its extension. -/
def read (path : Path) (bytes : List UInt8) : Except Failure Fields × List Event :=
  match path.extension with
  | ".yaml" | ".yml" => (readAs .yaml path bytes, [])
  | ".json" => (readAs .json path bytes, [])
  | extension =>
    match readAs .json path bytes with
    | .ok es => (.ok es, [.unknownExtension extension])
    | .error .loneSurrogate => (.error .loneSurrogate, [.unknownExtension extension])
    | .error _ => (readAs .yaml path bytes, [.unknownExtension extension])

/-- Loads the schema at a path, and tells what is logged. -/
def load (path : Path) (found : Found) : Except Failure Fields × List Event :=
  match found with
  | .nothing => (.error (.missing path), [])
  | .folder => (.error (.notFile path), [])
  | .tooLong => (.error (.tooLong path), [])
  | .closed => (.error (.closed path), [])
  | .file bytes => read path bytes

end SchemaFile

end NestedTables
