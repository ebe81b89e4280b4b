import NestedTables.Text.Hex
import NestedTables.Yaml.Moment

/-!
# Tags

A tag says what a node is. The tags that a document can use form `Tag`; all others count as
unknown. A plain scalar without a tag is given one by its text, which `Tag.ofPlain` decides
by the patterns of the language: the words for truth values and for nothing, numbers in
several bases and in groups of sixty, dates and moments.
-/

namespace NestedTables.Yaml

inductive Tag
  | null
  | bool
  | int
  | float
  | str
  | binary
  | timestamp
  | seq
  | map
  | set
  | omap
  | pairs
  /-- The key whose value is merged into a mapping. -/
  | merge
  /-- The key whose value stands for a mapping where a scalar is read. -/
  | value
  | unknown
deriving DecidableEq, Repr

namespace Tag

/-- What the tags of the language begin with. -/
def standard : String := "tag:yaml.org,2002:"

def ofText (s : String) : Tag :=
  if s = standard ++ "null" then .null
  else if s = standard ++ "bool" then .bool
  else if s = standard ++ "int" then .int
  else if s = standard ++ "float" then .float
  else if s = standard ++ "str" then .str
  else if s = standard ++ "binary" then .binary
  else if s = standard ++ "timestamp" then .timestamp
  else if s = standard ++ "seq" then .seq
  else if s = standard ++ "map" then .map
  else if s = standard ++ "set" then .set
  else if s = standard ++ "omap" then .omap
  else if s = standard ++ "pairs" then .pairs
  else if s = standard ++ "merge" then .merge
  else if s = standard ++ "value" then .value
  else .unknown

/-! ### Patterns

Each pattern is a function that takes what it matches off the front of a text. -/

/-- What is left of a text after a match. -/
abbrev Match := Option (List Char)

/-- Takes an optional sign off the front. -/
def unsigned (cs : List Char) : List Char :=
  match cs with
  | '-' :: rest | '+' :: rest => rest
  | _ => cs

def isDigitOrUnderscore (c : Char) : Bool :=
  c.isDigit || c = '_'

/-- Takes one character of a class and all that follow of another. -/
def run (first more : Char → Bool) (cs : List Char) : Match :=
  match cs with
  | c :: rest => if first c then some (rest.dropWhile more) else none
  | [] => none

/-- Takes a group of a number in base sixty: a colon and one digit or two. -/
def sixtieth : List Char → Match
  | ':' :: a :: b :: rest =>
    if !a.isDigit then none
    else if a ≤ '5' && b.isDigit then some rest
    else some (b :: rest)
  | [':', a] => if a.isDigit then some [] else none
  | _ => none

/-- Takes one group or more of a number in base sixty, of at most so many characters. -/
def sixtieths : Nat → List Char → Match
  | 0, _ => none
  | fuel + 1, cs =>
    match sixtieth cs with
    | none => none
    | some rest => some ((sixtieths fuel rest).getD rest)

/-- Takes an exponent with a sign, if one is there. -/
def exponent (cs : List Char) : Match :=
  match cs with
  | [] => some []
  | e :: sign :: rest =>
    if (e = 'e' || e = 'E') && (sign = '-' || sign = '+') then
      run Char.isDigit Char.isDigit rest
    else none
  | _ => none

/-- Whether a pattern takes the whole text. -/
def matchesAll (m : Match) : Bool :=
  m = some []

/-- Takes the point of a number and the places behind it. -/
def places (cs : List Char) : Match :=
  match cs with
  | '.' :: rest => some (rest.dropWhile isDigitOrUnderscore)
  | _ => none

def isBool (cs : List Char) : Bool :=
  ["yes", "Yes", "YES", "no", "No", "NO", "true", "True", "TRUE", "false", "False", "FALSE",
    "on", "On", "ON", "off", "Off", "OFF"].any fun w => w.toList = cs

def isNull (cs : List Char) : Bool :=
  ["", "~", "null", "Null", "NULL"].any fun w => w.toList = cs

def isFloat (cs : List Char) : Bool :=
  let body := unsigned cs
  let whole := run Char.isDigit isDigitOrUnderscore body
  matchesAll ((whole.bind places).bind exponent) ||
  (match cs with
    | '.' :: rest => matchesAll ((run Char.isDigit isDigitOrUnderscore rest).bind exponent)
    | _ => false) ||
  matchesAll ((whole.bind (sixtieths cs.length)).bind places) ||
  [".inf", ".Inf", ".INF"].any (fun w => w.toList = body) ||
  [".nan", ".NaN", ".NAN"].any (fun w => w.toList = cs)

def isInt (cs : List Char) : Bool :=
  let body := unsigned cs
  let nonZero (c : Char) : Bool := '1' ≤ c && c ≤ '9'
  let digits (p : Char → Bool) (cs : List Char) : Bool :=
    !cs.isEmpty && cs.all fun c => p c || c = '_'
  match body with
  | ['0'] => true
  | '0' :: 'b' :: rest => digits (fun c => c = '0' || c = '1') rest
  | '0' :: 'x' :: rest => digits (fun c => (Text.hexValue? c).isSome) rest
  | '0' :: rest => digits (fun c => '0' ≤ c && c ≤ '7') rest
  | _ =>
    let whole := run nonZero isDigitOrUnderscore body
    matchesAll whole || matchesAll (whole.bind (sixtieths cs.length))

/-- A text without the line feed at its end, unless it has nothing else. No pattern looks at
that line feed. -/
def withoutLastBreak (cs : List Char) : List Char :=
  if cs.length > 1 && cs.getLast? = some '\n' then cs.dropLast else cs

/-- Whether a text is one of the marks of tags, anchors and aliases, which no document can
use. -/
def isMark (cs : List Char) : Bool :=
  cs = ['!'] || cs = ['&'] || cs = ['*']

/-- The tag of a plain scalar. -/
def ofPlain (text : String) : Tag :=
  let cs := withoutLastBreak text.toList
  if isBool cs then .bool
  else if isFloat cs then .float
  else if isInt cs then .int
  else if cs = ['<', '<'] then .merge
  else if isNull cs then .null
  else if Moment.isPlain cs then .timestamp
  else if cs = ['='] then .value
  else if isMark cs then .unknown
  else .str

end Tag

end NestedTables.Yaml
