import NestedTables.Document.Display

/-!
# Pointers to nodes

A pointer is the list of keys that leads from the root of a document to one of its values.
It is written after a `#` with a slash before each key; a slash inside a key is written
`~1`, and so a tilde is written `~0`.
-/

namespace NestedTables

/-- The keys from the root to a value. -/
abbrev Pointer := List Scalar

namespace Pointer

/-- A character of a key. -/
def escapedChar (c : Char) : List Char :=
  if c = '~' then ['~', '0'] else if c = '/' then ['~', '1'] else [c]

/-- A key with its slashes and tildes escaped. -/
def escaped (key : List Char) : List Char :=
  key.flatMap escapedChar

/-- A key after its slash. -/
def segment (key : Scalar) : List Char :=
  '/' :: escaped key.plain.toList

/-- Whether all keys of a pointer are short enough to be written. -/
def isWritable (p : Pointer) : Bool :=
  p.all Scalar.isWritable

/-- The pointer as messages show it. -/
def written (p : Pointer) : String :=
  String.ofList ('#' :: p.flatMap segment)

example : written [.text "properties", .text "a/b~"] = "#/properties/a~1b~0" := by decide
example : written [] = "#" := by decide

end Pointer

end NestedTables
