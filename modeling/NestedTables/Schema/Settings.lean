import NestedTables.Record.Reading

/-!
# Settings of a compilation

A schema can override what the compiler infers by *override keys*: a common prefix and a
suffix for each of the five things that can be overridden. The prefix is a setting, so the
whole family can be renamed at once; every key with the prefix is left out of what is
compiled, whether it is one of the five or not.

The settings can be read from a document and written as one. The prefix may not be empty, and
it may not begin with a dollar sign, since it would then own keywords of the schema language
itself.
-/

namespace NestedTables

/-- What a schema can override. -/
inductive Override
  | tableName
  | modelName
  | idColumn
  | joinToColumn
  | joinThrough
deriving DecidableEq, Repr

namespace Override

/-- The end of the key of an override. -/
def suffix : Override → String
  | .tableName => "table-name"
  | .modelName => "model-name"
  | .idColumn => "id-column"
  | .joinToColumn => "join-to-column"
  | .joinThrough => "join-through"

/-- The overrides whose value is a text, in the order they are checked. -/
def textual : List Override :=
  [.tableName, .modelName, .idColumn, .joinToColumn]

/-- All overrides: the textual ones, then the one whose value is a mapping. -/
def all : List Override :=
  textual ++ [.joinThrough]

end Override

/-- The settings of a compilation. -/
structure Settings where
  /-- What every override key begins with. -/
  overridePrefix : String := "x-relschema-"
  /-- The identity column of a table that names none. -/
  idColumn : String := "id"
  /-- The schema of a foreign-key column. -/
  foreignKey : Fields := [(.text "type", .text "integer")]
deriving Repr

namespace Settings

/-- The prefix with a suffix. -/
def keyWith (settings : Settings) (suffix : String) : String :=
  settings.overridePrefix ++ suffix

/-- The key of an override. -/
def key (settings : Settings) (o : Override) : String :=
  settings.keyWith o.suffix

/-- Whether a key begins with the prefix. -/
def owns (settings : Settings) (key : String) : Bool :=
  settings.overridePrefix.toList.isPrefixOf key.toList

/-- The keys of the textual overrides. -/
def textualKeys (settings : Settings) : List String :=
  Override.textual.map settings.key

/-- The keys of all overrides. -/
def allKeys (settings : Settings) : List String :=
  Override.all.map settings.key

/-- The value that a node has for an override. -/
def override? (settings : Settings) (o : Override) (node : Fields) : Option Value :=
  node.value? (settings.key o)

theorem owns_keyWith (settings : Settings) (suffix : String) :
    settings.owns (settings.keyWith suffix) = true := by
  simp [owns, keyWith, List.isPrefixOf_iff_prefix]

/-! ### The settings as a record -/

/-- Reads a prefix for override keys. -/
def readPrefix (v : Value) : Reading String :=
  match Reading.text 1 v with
  | .error ps => .error ps
  | .ok s =>
    if s.toList.head? = some '$' then
      Reading.flawed
        (.refused s!"Annotation prefix '{s}' would collide with JSON Schema '$' keywords.")
    else .ok s

def fieldNames : List (List String) :=
  [["annotation_prefix"], ["default_id_column"], ["foreign_key_schema"]]

def ofFields (es : Fields) : Reading Settings :=
  let unset : Settings := {}
  ((Reading.optional ["annotation_prefix"] unset.overridePrefix readPrefix es).both <|
    (Reading.optional ["default_id_column"] unset.idColumn (Reading.text 1) es).both
      (Reading.optional ["foreign_key_schema"] unset.foreignKey Reading.fields es)).checked
        (Reading.nothingElse fieldNames es)
  |>.map fun (overridePrefix, idColumn, foreignKey) => ⟨overridePrefix, idColumn, foreignKey⟩

def ofValue : Value → Reading Settings :=
  Reading.record "CompilerSettings" ofFields

/-- The settings as a document. -/
def dump (s : Settings) : Value :=
  .object [("annotation_prefix", .text s.overridePrefix), ("default_id_column", .text s.idColumn),
    ("foreign_key_schema", .map s.foreignKey)]

/-- The names of the keys, which follow from the prefix. -/
def derivedNames : List String :=
  ["table_name_key", "model_name_key", "id_column_key", "join_to_column_key", "join_through_key",
    "string_annotation_keys"]

/-- Gives a setting a new value. -/
def set (s : Settings) (name : String) (v : Value) : Reading Settings :=
  Reading.under (.text name) <| match name with
    | "annotation_prefix" => (readPrefix v).map fun p => { s with overridePrefix := p }
    | "default_id_column" => (Reading.text 1 v).map fun c => { s with idColumn := c }
    | "foreign_key_schema" => (Reading.fields v).map fun es => { s with foreignKey := es }
    | _ => Reading.notField derivedNames name

end Settings

end NestedTables
