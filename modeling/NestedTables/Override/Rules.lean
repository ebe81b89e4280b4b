import NestedTables.Override.Finding
import NestedTables.Relational.Relation
import NestedTables.Schema.Tree
import NestedTables.Text.Blank

/-!
# The rules for overrides

The rules come in two groups. The rules for *values* look at one node at a time: a textual
override is a text that is not blank, an override of the join column is a reference, the
title of a table that is named after it is a text, and a key with the prefix is one of the
five. The rules for *joins* also know the tables of the whole schema: an override of a join
sits on an array of tables, and a join table is written as two references into one table that
the schema has.

Each rule finds a `Complaint`, which is the cause with its data. Its severity, code and
wording are functions of it. `checkAll` reports all findings about values, in the order of
the walk, and then all findings about joins. It is the check of a schema; `checkAny` takes any
value, and finds nothing in one that is no mapping, while `checkGroup` breaks off at it.
-/

namespace NestedTables

/-- What a rule finds wrong, or worth a warning. -/
inductive Complaint
  | notText (key : String) (value : Value)
  | notReference (key value : String)
  | titleNotText (title : Value) (identity : Value)
  | unknownKey (key : String)
  | joinIgnored
  | joinConflict (joinTo joinThrough : String)
  | throughMalformed (key : String) (problems : Nat) (value : Value)
  | throughNotReferences (t : Through)
  | throughTwoTables (source target : String)
  | throughUnknownTable (table : String)
deriving Repr

namespace Complaint

def severity : Complaint → Severity
  | .unknownKey _ | .joinIgnored | .joinConflict _ _ => .warning
  | _ => .error

def code : Complaint → String
  | .notText _ _ => "ANNOTATION_NOT_STRING"
  | .notReference _ _ => "JOIN_TO_COLUMN_MALFORMED"
  | .titleNotText _ _ => "TABLE_TITLE_NOT_STRING"
  | .unknownKey _ => "UNKNOWN_ANNOTATION"
  | .joinIgnored => "JOIN_ANNOTATION_IGNORED"
  | .joinConflict _ _ => "JOIN_OVERRIDES_CONFLICT"
  | .throughMalformed .. | .throughNotReferences _ | .throughTwoTables _ _ =>
    "JOIN_THROUGH_MALFORMED"
  | .throughUnknownTable _ => Finding.joinTableCode

def message : Complaint → String
  | .notText key v => s!"Annotation '{key}' must be a non-empty string, got {v.shown}."
  | .notReference key v => s!"Annotation '{key}' must be a 'table.column' reference, got '{v}'."
  | .titleNotText title _ => s!"Table title must be a string, got {title.shown}."
  | .unknownKey key => s!"Unknown annotation '{key}' is ignored."
  | .joinIgnored => "Join annotations only apply to arrays whose items are tables."
  | .joinConflict joinTo joinThrough =>
    s!"Both '{joinTo}' and '{joinThrough}' are set; '{joinTo}' takes precedence."
  | .throughMalformed key n v =>
    s!"Annotation '{key}' must be a mapping with 'from' and 'to': {n} problem(s) in {v.shown}."
  | .throughNotReferences t =>
    "Join-through 'from' and 'to' must be 'table.column' references, " ++
      s!"got '{t.source}' and '{t.target}'."
  | .throughTwoTables source target =>
    "Join-through 'from' and 'to' must name the same join table, " ++
      s!"got '{source}' and '{target}'."
  | .throughUnknownTable table => s!"Join-through table '{table}' is not a table in this schema."

/-- The data of a complaint, apart from the pointer. -/
def data : Complaint → Fields
  | .notText key _ | .notReference key _ | .unknownKey key => [(.text "annotation", .text key)]
  | .titleNotText _ identity => [(.text "identity", identity)]
  | .throughUnknownTable table => [(.text "table", .text table)]
  | _ => []

/-- The value of any kind that the message shows. -/
def value? : Complaint → Option Value
  | .notText _ v | .titleNotText v _ | .throughMalformed _ _ v => some v
  | _ => none

/-- Whether the message of a complaint is not too long to be written. -/
def isWritable (c : Complaint) : Bool :=
  c.value?.all Value.isWritable

/-- The complaint about a node, as a finding. -/
def finding (at_ : Pointer) (c : Complaint) : Finding where
  severity := c.severity
  code := c.code
  message := c.message
  context := (.text "pointer", .text at_.written) :: c.data

end Complaint

namespace Override

/-! ### Rules for values -/

/-- The complaint about the value of a textual override. -/
def textComplaint? (settings : Settings) (o : Override) (node : Fields) : Option Complaint :=
  match settings.override? o node with
  | none => none
  | some (.text s) =>
    if Text.allBlank s then some (.notText (settings.key o) (.text s))
    else if o = .joinToColumn ∧ ColumnRef.ofText? s = none then
      some (.notReference (settings.key o) s)
    else none
  | some v => some (.notText (settings.key o) v)

/-- Whether the names of the table and of the model are both overridden. -/
def namesBoth (settings : Settings) (node : Fields) : Bool :=
  ((settings.override? .tableName node).any Value.truthy) &&
    (settings.override? .modelName node).any Value.truthy

/-- The complaint about a title. -/
def titleComplaint? (settings : Settings) (node : Fields) : Option Complaint :=
  if node.isTable && !namesBoth settings node then
    match node.value "title" with
    | .null | .text _ => none
    | title => some (.titleNotText title (node.value identityKey))
  else none

/-- The complaint about a key. -/
def keyComplaint? (settings : Settings) (k : Scalar) : Option Complaint :=
  match k with
  | .text s =>
    if settings.owns s && !settings.allKeys.contains s then some (.unknownKey s) else none
  | _ => none

/-- What the rules for values find in a node. -/
def valueComplaints (settings : Settings) (node : Fields) : List Complaint :=
  textual.filterMap (fun o => textComplaint? settings o node) ++
    (titleComplaint? settings node).toList ++
      node.filterMap fun e => keyComplaint? settings e.1

/-! ### Rules for joins -/

/-- The complaint about a join table, in a schema with these tables. -/
def throughComplaint? (settings : Settings) (tables : List String) (v : Value) :
    Option Complaint :=
  match Through.ofValue v with
  | .error problems => some (.throughMalformed (settings.key .joinThrough) problems.length v)
  | .ok t =>
    match ColumnRef.ofText? t.source, ColumnRef.ofText? t.target with
    | some source, some target =>
      if source.table ≠ target.table then some (.throughTwoTables source.table target.table)
      else if !tables.contains source.table then some (.throughUnknownTable source.table)
      else none
    | _, _ => some (.throughNotReferences t)

/-- What the rules for joins find in a node of a schema with these tables. -/
def joinComplaints (settings : Settings) (tables : List String) (node : Fields) :
    List Complaint :=
  let joinTo := settings.override? .joinToColumn node
  let through := settings.override? .joinThrough node
  if joinTo.isNone && through.isNone then []
  else
    (if node.kind = .arrayOfTable then [] else [.joinIgnored]) ++
      (if joinTo.isSome && through.isSome then
        [.joinConflict (settings.key .joinToColumn) (settings.key .joinThrough)] else []) ++
          (through.bind (throughComplaint? settings tables)).toList

/-! ### Whole schemas -/

/-- The findings of a group of rules about a schema. -/
def check (settings : Settings) (schema : Fields) : RuleGroup → Report
  | .values =>
    ⟨schema.nodes.flatMap fun n => (valueComplaints settings n.2).map (·.finding n.1)⟩
  | .joins =>
    ⟨schema.nodes.flatMap fun n =>
      (joinComplaints settings (schema.tableNames settings) n.2).map (·.finding n.1)⟩

/-- All findings about a schema: those about values, then those about joins. -/
def checkAll (settings : Settings) (schema : Fields) : Report :=
  (check settings schema .values).merge (check settings schema .joins)

/-! ### Any value -/

/-- Why a group of rules breaks off at a value that is no mapping. -/
inductive CheckFault
  /-- A key is looked for in the value, or seems to be in it, but the value has no keys. -/
  | noKeys
  /-- The value is asked for its entries. -/
  | noEntries
deriving DecidableEq, Repr

/-- Whether it is not ruled out that a value has a key. A text has its parts, and what has members
has these; what cannot be searched rules nothing out. -/
def seemsToHave (key : String) : Value → Bool
  | .text s => (s.splitOn key).length > 1
  | .list vs => vs.any (·.same (.text key))
  | .set members => members.any (·.same (.text key))
  | .pair a b => a.same (.text key) || b.same (.text key)
  | .map es => (Fields.value? key es).isSome
  | .scalar _ => true

/-- The keys whose values a group of rules takes from a node before it asks for its entries. -/
def keysTaken (settings : Settings) : RuleGroup → List String
  | .values => settings.textualKeys
  | .joins => [settings.key .joinThrough]

/-- The findings of a group of rules about any value. -/
def checkGroup (settings : Settings) (v : Value) (rules : RuleGroup) : Except CheckFault Report :=
  match v with
  | .map schema => .ok (check settings schema rules)
  | v =>
    .error (if (keysTaken settings rules).any (seemsToHave · v) then .noKeys else .noEntries)

/-- All findings about any value. One that is no mapping has nothing to check. -/
def checkAny (settings : Settings) : Value → Report
  | .map schema => checkAll settings schema
  | _ => {}

/-! ### What can be reported -/

/-- Whether the complaints about all nodes of a schema can be written; `complaints` are those
about one node. -/
def canReport (complaints : Fields → List Complaint) (schema : Fields) : Bool :=
  schema.nodes.all fun n => n.1.isWritable && (complaints n.2).all Complaint.isWritable

/-- The first group of rules whose findings about a schema cannot be written. -/
def unwritable? (settings : Settings) (schema : Fields) : Option RuleGroup :=
  if !canReport (valueComplaints settings) schema then some .values
  else if !canReport (joinComplaints settings (schema.tableNames settings)) schema then
    some .joins
  else none

/-- What is logged while a schema is checked. -/
def checkEvents (settings : Settings) (schema : Fields) : List Event :=
  let values := check settings schema .values
  let joins := check settings schema .joins
  let all := values.merge joins
  [.checking .values, .checked .values values.size, .checking .joins, .checked .joins joins.size,
    if all.hasErrors then .checkFailed all.summary else .checkPassed all.summary]

end Override

end NestedTables
