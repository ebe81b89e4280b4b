import NestedTables.Text.Quoted

/-!
# The options of the command line

Every option has one name or two, and some of them take a value. `Refusal` says what can be
wrong with a command line, and `usage` and `help` are the texts that explain the right use.
-/

namespace NestedTables.CommandLine

/-- The options, in the order in which they are declared. -/
inductive Flag
  | help
  | version
  | schema
  | format
  | validateOnly
  | overridePrefix
  | idColumn
  | virtual
  | verbose
  | quiet
deriving DecidableEq, Repr

namespace Flag

def all : List Flag :=
  [.help, .version, .schema, .format, .validateOnly, .overridePrefix, .idColumn, .virtual,
    .verbose, .quiet]

def names : Flag → List String
  | .help => ["-h", "--help"]
  | .version => ["--version"]
  | .schema => ["-s", "--schema"]
  | .format => ["--format"]
  | .validateOnly => ["--validate-only"]
  | .overridePrefix => ["--annotation-prefix"]
  | .idColumn => ["--id-column"]
  | .virtual => ["--virtual"]
  | .verbose => ["-v", "--verbose"]
  | .quiet => ["-q", "--quiet"]

def takesValue : Flag → Bool
  | .schema | .format | .overridePrefix | .idColumn | .virtual => true
  | _ => false

/-- The option in a message: all of its names. -/
def shown (f : Flag) : String :=
  "/".intercalate f.names

/-- All names with their options. -/
def table : List (String × Flag) :=
  all.flatMap fun f => f.names.map (·, f)

/-- The option of a name. -/
def ofName? (name : String) : Option Flag :=
  (table.find? fun e => e.1 = name).map (·.2)

end Flag

/-- The languages of the output, by their names. -/
def formatNames : List String := ["json", "yaml"]

/-- What is wrong with a command line. -/
inductive Refusal
  /-- A word that could be short for several names. -/
  | ambiguous (word : String) (names : List String)
  | valueMissing (f : Flag)
  /-- A value for an option that takes none. -/
  | valueIgnored (f : Flag) (value : String)
  | rivals (f other : Flag)
  | unknownFormat (value : String)
  /-- There is no schema. -/
  | schemaMissing
  /-- Words that belong to no option. -/
  | unrecognized (words : List String)
deriving DecidableEq, Repr

namespace Refusal

/-- What is wrong with an option. -/
def about (f : Flag) (problem : String) : String :=
  s!"argument {f.shown}: {problem}"

def message : Refusal → String
  | .ambiguous word names =>
    s!"ambiguous option: {word} could match " ++ ", ".intercalate names
  | .valueMissing f => about f "expected one argument"
  | .valueIgnored f value => about f s!"ignored explicit argument {Text.quoted value}"
  | .rivals f other => about f s!"not allowed with argument {other.shown}"
  | .unknownFormat value =>
    about .format <| s!"invalid choice: {Text.quoted value} (choose from " ++
      ", ".intercalate (formatNames.map Text.quoted) ++ ")"
  | .schemaMissing => s!"the following arguments are required: {Flag.schema.shown}"
  | .unrecognized words => "unrecognized arguments: " ++ " ".intercalate words

end Refusal

/-- The name of the program. -/
def program : String := "relschema"

/-- The program and its version. -/
def version : String := program ++ " v0.1.0"

/-- Lines, each with its end. -/
def lines (ls : List String) : String :=
  String.join (ls.map (· ++ "\n"))

def usage : String :=
  lines [
    s!"usage: {program} [-h] [--version] -s PATH [--format \x7bjson,yaml\x7d]",
    "                 [--validate-only] [--annotation-prefix PREFIX]",
    "                 [--id-column NAME] [--virtual NAME] [-v | -q]"]

def help : String :=
  usage ++ lines [
    "",
    s!"{program}: compile a nested JSON Schema into relational table descriptors and relations.",
    "",
    "options:",
    "  -h, --help            show this help message and exit",
    "  --version             show program's version number and exit",
    "  -s PATH, --schema PATH",
    "                        Path to the dereferenced schema file (JSON or YAML).",
    "  --format \x7bjson,yaml\x7d  Output format for the compiled descriptors (default:",
    "                        json).",
    "  -v, --verbose         Increase log verbosity (-v INFO, -vv DEBUG).",
    "  -q, --quiet           Suppress all log output.",
    "",
    "operation modes:",
    "  --validate-only       Only validate annotations without compiling.",
    "",
    "configuration overrides:",
    "  --annotation-prefix PREFIX",
    "                        Namespace prefix of override annotations (default:",
    "                        'x-relschema-').",
    "  --id-column NAME      Default identity column name (default: 'id').",
    "  --virtual NAME        Property name to exclude from every table",
    "                        (repeatable).",
    "",
    "Examples:",
    s!"  {program} -s order.json",
    s!"  {program} -s order.yaml --format yaml --virtual etag",
    s!"  {program} -s order.json --validate-only"]

end NestedTables.CommandLine
