import NestedTables.Text.LowerCase

/-!
# Paths

A path is a list of names. It is written with slashes before them, after a text that says
where the names begin; for an absolute path that text is empty. Empty names and single dots
mean nothing and are left out when a path is read.

An absolute path that is written with two slashes at its beginning keeps both of them, but only
until it is resolved.
-/

namespace NestedTables

/-- The way to a file. -/
structure Path where
  /-- What is written before the first slash. -/
  start : String := ""
  names : List String := []
deriving DecidableEq, Repr

namespace Path

/-- The names between the slashes of a text that mean something. -/
def namesOf (text : String) : List String :=
  (text.splitOn "/").filter fun name => name ≠ "" && name ≠ "."

/-- What an absolute path with two slashes at its beginning starts with. -/
def secondSlash : String := "/"

/-- The path that a text is, seen from a folder. -/
def ofText (folder : Path) (text : String) : Path :=
  match text.toList.takeWhile (· = '/') with
  | [] => { folder with names := folder.names ++ namesOf text }
  | [_, _] => ⟨secondSlash, namesOf text⟩
  | _ => ⟨"", namesOf text⟩

/-- Whether a path does not depend on any folder. -/
def isAbsolute (p : Path) : Bool :=
  p.start = "" || p.start = secondSlash

/-- Goes up one name for every two dots; `above` are the names so far, the last one first. -/
def collapsed : (above names : List String) → List String
  | above, [] => above.reverse
  | above, name :: names =>
    if name = ".." then collapsed above.tail names else collapsed (name :: above) names

/-- The path without two dots for a name, and without a second slash at its beginning. -/
def resolved (p : Path) : Path :=
  ⟨if p.isAbsolute then "" else p.start, collapsed [] p.names⟩

/-- The path as it is written. -/
def shown (p : Path) : String :=
  if p.isAbsolute && p.names.isEmpty then p.start ++ "/"
  else p.start ++ String.join (p.names.map ("/" ++ ·))

/-- The last name. -/
def name (p : Path) : String :=
  p.names.getLast?.getD ""

/-- The end of the last name from its last dot on, in lower case. A dot at either end of the
name begins no extension. -/
def extension (p : Path) : String :=
  let cs := p.name.toList
  let after := (cs.reverse.takeWhile (· ≠ '.')).reverse
  let before := cs.length - after.length
  if before ≤ 1 || after.isEmpty then ""
  else String.ofList (Text.lowerCase ('.' :: after))

example : (Path.mk "" ["a.b.JSON"]).extension = ".json" := by decide +kernel
example : (Path.mk "" [".json"]).extension = "" := by decide

end Path

end NestedTables
