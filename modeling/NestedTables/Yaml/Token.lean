import NestedTables.Calendar.Date
import NestedTables.Text.Quoted
import NestedTables.Yaml.Cursor

/-!
# Tokens of YAML, and what can be wrong with a text

A text of YAML is a sequence of `Token`s. Blocks are marked by tokens too, although nothing
is written for them: a block begins where the indentation grows and ends where it falls back.
So is a key that is only known as one by the colon behind it.

A text can fail to be a document for a reason of its notation, which is always
`Fault.malformed`, or since one of its scalars is not what its tag says.
-/

namespace NestedTables.Yaml

/-- Why a text is no document. -/
inductive Fault
  | malformed
  /-- An escape names a code point that no character has. -/
  | noCharacter (code : Nat)
  /-- An escape names a surrogate. The text may be a document all the same. -/
  | loneSurrogate
  /-- Digits in a base that write no integer. -/
  | noInteger (base : Nat) (digits : List Char)
  | noDouble (digits : List Char)
  /-- An integer with so many decimal digits that it is not read. -/
  | tooManyDigits (digits : Nat)
  /-- A double of so many groups that the worth of one is no double. -/
  | tooManyGroups
  /-- A number without a character. -/
  | emptyNumber
  | noTruthValue (word : String)
  | noTimestamp
  /-- A mapping stands where a timestamp is read. -/
  | timestampOfMapping
  | calendar (fault : CalendarFault)
deriving DecidableEq, Repr

/-- A line that says how a document is to be read. -/
inductive Directive
  /-- The major version of the language. -/
  | version (major : Nat)
  /-- A short form for the beginning of tags. -/
  | tagHandle (handle start : String)
  | other
deriving DecidableEq, Repr

/-- A tag as it is written: a handle, which stands for the beginning of the tag, and the rest.
A tag between angles has no handle. -/
structure WrittenTag where
  handle : Option String
  suffix : String
deriving DecidableEq, Repr

inductive Token
  | directive (d : Directive)
  | documentStart
  | documentEnd
  | blockSequenceStart
  | blockMappingStart
  | blockEnd
  | flowSequenceStart
  | flowSequenceEnd
  | flowMappingStart
  | flowMappingEnd
  /-- A comma between members of a flow collection. -/
  | flowEntry
  /-- A hyphen before a member of a block sequence. -/
  | blockEntry
  | key
  | value
  | alias (name : String)
  | anchor (name : String)
  | tag (t : WrittenTag)
  /-- A scalar; it is plain if it stands without quotes. -/
  | scalar (text : String) (plain : Bool)
  /-- The text goes on, but not with a token. -/
  | fault (f : Fault)
deriving DecidableEq, Repr

end NestedTables.Yaml
