import NestedTables.Document.Display
import NestedTables.Yaml.Node.Value

/-!
# Reading YAML

`Yaml.read` reads a text as a document: its characters have to be printable, its tokens have to
form at most one tree of nodes, and the nodes have to be what their tags say. A text without
a document is null.
-/

namespace NestedTables.Yaml

/-- Whether a character may stand in a text. -/
def isAllowed (c : Char) : Bool :=
  let n := c.toNat
  n = 0x9 || n = 0xa || n = 0xd || (0x20 ≤ n && n ≤ 0x7e) || n = 0x85 ||
    (0xa0 ≤ n && n ≤ 0xd7ff) || (0xe000 ≤ n && n ≤ 0xfffd) || 0x10000 ≤ n

/-- The greatest number of characters of a faulty integer that are shown. -/
def longestQuote : Nat := 200

/-- What is said of a scalar that is not what its tag says; nothing for the faults that are
not told in words. -/
def Fault.message? : Fault → Option String
  | .noCharacter code =>
    if code < Nat.pow 2 31 then some "chr() arg not in range(0x110000)" else none
  | .noInteger base digits =>
    let shown := (Text.quoted (String.ofList digits)).toList.take longestQuote
    some s!"invalid literal for int() with base {base}: {String.ofList shown}"
  | .tooManyDigits digits => some (Text.unreadable digits)
  | .noDouble digits =>
    some s!"could not convert string to float: {Text.quoted (String.ofList digits)}"
  | .calendar f => some f.message
  | _ => none

/-- Reads a text as a document. -/
def read (text : String) : Except Fault Value :=
  let cs := text.toList
  if !cs.all isAllowed then .error .malformed
  else match Node.ofTokens? (Token.scan cs) with
    | .error e => .error e
    | .ok none => .ok .null
    | .ok (some n) => n.value

end NestedTables.Yaml
