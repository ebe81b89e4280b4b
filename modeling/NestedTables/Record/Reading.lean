import NestedTables.Document.Display
import NestedTables.Text.Utf8

/-!
# Reading records

A record is read from a mapping field by field. Reading does not stop at the first problem:
it lists all of them, those of the declared fields in the order of the fields and then one
for every key that no field has taken, in written order.

A field may go by two names. The first name that is there is the one that counts, and a
problem is reported at that name; if none is there, at the first one.

Where a text should stand, bytes stand for the text that they encode, and where a list should
stand, a set is the list of its members. Nothing else is taken for anything that it is not.
-/

namespace NestedTables

/-- What is wrong with a value of a record. -/
inductive Flaw
  | missing
  | notText
  /-- Bytes that encode no text. -/
  | notEncoded
  /-- A text with fewer characters than there should be. -/
  | tooShort (least : Nat)
  | notMapping
  | notList
  | unknownKey
  | keyNotText
  /-- A value that should have been a record. -/
  | notRecord (record : String)
  /-- A text that is refused for what it says. -/
  | refused (reason : String)
  | noAttribute (name : String)
  /-- An attribute that follows from the fields and is not given. -/
  | derived (name : String)
deriving DecidableEq, Repr

namespace Flaw

/-- The word for a flaw. -/
def code : Flaw → String
  | .missing => "missing"
  | .notText => "string_type"
  | .notEncoded => "string_unicode"
  | .tooShort _ => "string_too_short"
  | .notMapping => "dict_type"
  | .notList => "list_type"
  | .unknownKey => "extra_forbidden"
  | .keyNotText => "invalid_key"
  | .notRecord _ => "model_type"
  | .refused _ => "value_error"
  | .noAttribute _ => "no_such_attribute"
  | .derived _ => "derived_attribute"

def message : Flaw → String
  | .missing => "Field required"
  | .notText => "Input should be a valid string"
  | .notEncoded =>
    "Input should be a valid string, unable to parse raw data as a unicode string"
  | .tooShort n =>
    let unit := if n = 1 then "character" else "characters"
    s!"String should have at least {n} {unit}"
  | .notMapping => "Input should be a valid dictionary"
  | .notList => "Input should be a valid list"
  | .unknownKey => "Extra inputs are not permitted"
  | .keyNotText => "Keys should be strings"
  | .notRecord record => s!"Input should be a valid dictionary or instance of {record}"
  | .refused reason => s!"Value error, {reason}"
  | .noAttribute name => s!"Object has no attribute '{name}'"
  | .derived name => s!"Attribute '{name}' cannot be set"

end Flaw

/-- A flaw and the way to it: keys, which are scalars, and places in lists, which are
integers. -/
structure Problem where
  flaw : Flaw
  path : List Scalar
deriving DecidableEq, Repr

/-- What is read, or all that is wrong with it. -/
abbrev Reading (α : Type) := Except (List Problem) α

namespace Reading

variable {α β : Type}

def flawed (flaw : Flaw) : Reading α :=
  .error [⟨flaw, []⟩]

/-- The problems seen from a key further up. -/
def under (key : Scalar) : Reading α → Reading α
  | .ok a => .ok a
  | .error ps => .error (ps.map fun p => { p with path := key :: p.path })

/-- Two readings, with the problems of both. -/
def both : Reading α → Reading β → Reading (α × β)
  | .ok a, .ok b => .ok (a, b)
  | .error ps, .ok _ => .error ps
  | .ok _, .error qs => .error qs
  | .error ps, .error qs => .error (ps ++ qs)

/-- A reading followed by one that only checks. -/
def checked (a : Reading α) (b : Reading Unit) : Reading α :=
  (a.both b).map (·.1)

/-- A list of readings, with the problems of all. -/
def all : List (Reading α) → Reading (List α)
  | [] => .ok []
  | r :: rs => (r.both (all rs)).map fun (a, as) => a :: as

/-- The text that a scalar is or encodes. -/
def plainText (s : Scalar) : Except Flaw String :=
  match s with
  | .text s => .ok s
  | .bytes bs =>
    match Text.Utf8.decode bs with
    | .ok s => .ok s
    | .error _ => .error .notEncoded
  | _ => .error .notText

/-- Reads a text of at least so many characters. -/
def text (least : Nat) (v : Value) : Reading String :=
  match v with
  | .scalar s =>
    match plainText s with
    | .ok s => if s.length < least then flawed (.tooShort least) else .ok s
    | .error flaw => flawed flaw
  | _ => flawed .notText

/-- Reads a text or null. -/
def textOrNull (v : Value) : Reading (Option String) :=
  match v with
  | .null => .ok none
  | v => (text 0 v).map some

/-- Reads anything. -/
def anything (v : Value) : Reading Value :=
  .ok v

/-- Reads a list of texts; a problem is reported at the place of its member. -/
def texts (v : Value) : Reading (List String) :=
  match v with
  | .list vs => all (vs.mapIdx fun i v => (text 0 v).under (.int i))
  | .set ms => all (ms.mapIdx fun i m => (text 0 (.scalar m)).under (.int i))
  | _ => flawed .notList

/-- Whether an integer has a place in sixty-four bits. -/
def isSmall (n : Int) : Bool :=
  -(Nat.pow 2 63 : Int) ≤ n && n < (Nat.pow 2 63 : Int)

/-- A key on the way to a problem: a text or an integer that is not large as it is, another one
as it is written. -/
def step (k : Scalar) : Scalar :=
  match k with
  | .text s => .text s
  | k => match k.integer?.filter isSmall with
    | some n => .int n
    | none => .text k.shown

/-- Reads the key of a mapping, which has to be a text. -/
def key (k : Scalar) : Reading String :=
  match plainText k with
  | .ok s => .ok s
  | .error flaw => .error [⟨flaw, [step k, .text "[key]"]⟩]

/-- Reads a mapping from texts; `value` reads the values. Of keys that are the same as texts
the later value counts. -/
def mapping (value : Value → Reading β) (v : Value) : Reading (Entries String β) :=
  match v with
  | .map es =>
    (all (es.map fun e => (key e.1).both ((value e.2).under (step e.1)))).map Entries.ofPairs
  | _ => flawed .notMapping

/-- Reads a mapping from texts to anything. -/
def fields (v : Value) : Reading Fields :=
  (mapping anything v).map fun es => es.map fun e => (.text e.1, e.2)

/-- The first of the names of a field that is there, and its value. -/
def find? (names : List String) (es : Fields) : Option (String × Value) :=
  names.findSome? fun name => (es.value? name).map (name, ·)

/-- Reads a field that has to be there. -/
def required (names : List String) (value : Value → Reading α) (es : Fields) : Reading α :=
  match find? names es with
  | some (name, v) => (value v).under (.text name)
  | none => (flawed .missing).under (.text (names.headD ""))

/-- Reads a field that has a value of its own when it is not there. -/
def optional (names : List String) (absent : α) (value : Value → Reading α) (es : Fields) :
    Reading α :=
  match find? names es with
  | some (name, v) => (value v).under (.text name)
  | none => .ok absent

/-- The problem with a key that no field has taken. -/
def leftOver (k : Scalar) : Problem :=
  match k with
  | .text s => ⟨.unknownKey, [.text s]⟩
  | k => ⟨.keyNotText, [step k]⟩

/-- Checks that every key belongs to a field; `fields` lists their names. -/
def nothingElse (fields : List (List String)) (es : Fields) : Reading Unit :=
  let taken := fields.filterMap fun names => (find? names es).map (·.1)
  match es.filter fun e => !taken.any fun name => e.1 = .text name with
  | [] => .ok ()
  | rest => .error (rest.map fun e => leftOver e.1)

/-- Refuses to set an attribute that is not a field; `derived` lists those that follow from the
fields. -/
def notField (derived : List String) (name : String) : Reading α :=
  flawed (if derived.contains name then .derived name else .noAttribute name)

/-- Reads a record from the entries of a mapping. -/
def record (name : String) (read : Fields → Reading α) (v : Value) : Reading α :=
  match v with
  | .map es => read es
  | _ => flawed (.notRecord name)

end Reading

end NestedTables
