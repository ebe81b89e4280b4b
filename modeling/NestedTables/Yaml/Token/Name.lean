import NestedTables.Text.DigitLimit
import NestedTables.Text.Utf8
import NestedTables.Yaml.Token

/-!
# Names, tags and directives

The tokens that say something about a document or a node: anchors and the aliases that refer
to them, tags, and the directives before a document. A tag may hold bytes of UTF-8 as escapes
of two hexadecimal digits.
-/

namespace NestedTables.Yaml

/-- Whether a character may stand in the name of an anchor, a directive or a handle. -/
def isNameChar (c : Char) : Bool :=
  c.isAlphanum || c = '-' || c = '_'

/-- Whether a character may stand in the rest of a tag. -/
def isTagChar (c : Char) : Bool :=
  c.isAlphanum || "-;/?:@&=+$,_.!~*'()[]%".toList.contains c

/-- Reads the name of an anchor or an alias, after its mark. -/
def anchorName (c : Cursor) : Except Fault (String × Cursor) :=
  let (name, c) := c.span isNameChar
  if name.isEmpty || !(atBlank c.rest || endsOr ("?:,]\x7d%@`".toList.contains ·) c.rest) then
    .error .malformed
  else .ok (String.ofList name, c)

/-! ### Tags -/

/-- The bytes of the escapes that stand here. -/
def escapedBytes : Nat → Cursor → Except Fault (List UInt8 × Cursor)
  | 0, _ => .error .malformed
  | fuel + 1, c =>
    match c.rest with
    | '%' :: rest =>
      match (if rest.length < 2 then none else Text.hexNumber? (rest.take 2)) with
      | some b => (escapedBytes fuel (c.skip 3)).map fun (bs, c) => (b.toUInt8 :: bs, c)
      | none => .error .malformed
    | _ => .ok ([], c)

/-- The characters of a tag up to the first that cannot stand in one. -/
def tagText : Nat → Cursor → Except Fault (List Char × Cursor)
  | 0, _ => .error .malformed
  | fuel + 1, c =>
    match c.span fun ch => isTagChar ch && ch ≠ '%' with
    | (plain, c) =>
      if c.rest.head? = some '%' then
        match escapedBytes (c.rest.length + 1) c with
        | .error e => .error e
        | .ok (bytes, c) =>
          match Text.Utf8.decode bytes with
          | .error _ => .error .malformed
          | .ok s => (tagText fuel c).map fun (more, c) => (plain ++ s.toList ++ more, c)
      else .ok (plain, c)

/-- Reads the rest of a tag, which may not be empty. -/
def tagSuffix (c : Cursor) : Except Fault (String × Cursor) :=
  match tagText (c.rest.length + 1) c with
  | .error e => .error e
  | .ok (text, after) =>
    if after.index = c.index then .error .malformed else .ok (String.ofList text, after)

/-- Reads the handle of a tag: one exclamation mark, or a name between two. -/
def tagHandle (c : Cursor) : Except Fault (String × Cursor) :=
  match c.rest with
  | '!' :: rest =>
    if rest.head? = some ' ' then .ok ("!", c.next)
    else
      let (name, c) := c.next.span isNameChar
      if c.rest.head? = some '!' then
        .ok (String.ofList ('!' :: name ++ ['!']), c.next)
      else .error .malformed
  | _ => .error .malformed

/-- The characters up to the next space. -/
def untilSpace (cs : List Char) : List Char :=
  cs.takeWhile fun c => !(c = ' ' || isBreak c)

/-- Reads a tag, from its exclamation mark on. -/
def tag (c : Cursor) : Except Fault (WrittenTag × Cursor) :=
  let read : Except Fault (WrittenTag × Cursor) :=
    match c.next.rest with
    | '<' :: _ =>
      match tagSuffix (c.skip 2) with
      | .error e => .error e
      | .ok (suffix, c) =>
        if c.rest.head? = some '>' then .ok (⟨none, suffix⟩, c.next) else .error .malformed
    | rest =>
      if atBlank rest then .ok (⟨none, "!"⟩, c.next)
      else
        let handle := if (untilSpace rest).contains '!' then tagHandle c else .ok ("!", c.next)
        match handle with
        | .error e => .error e
        | .ok (handle, c) => (tagSuffix c).map fun (suffix, c) => (⟨some handle, suffix⟩, c)
  match read with
  | .error e => .error e
  | .ok (t, c) => if atSpace c.rest then .ok (t, c) else .error .malformed

/-! ### Directives -/

/-- Reads a number in decimal digits. -/
def versionNumber (c : Cursor) : Except Fault (Nat × Cursor) :=
  let (digits, c) := c.span Char.isDigit
  if digits.isEmpty then .error .malformed
  else if digits.length > Text.mostDigits then .error (.tooManyDigits digits.length)
  else .ok (digits.foldl (fun n d => 10 * n + (d.toNat - 0x30)) 0, c)

/-- Reads a version: two numbers with a point between them. -/
def versionDirective (c : Cursor) : Except Fault (Directive × Cursor) :=
  match versionNumber c.skipSpaces with
  | .error e => .error e
  | .ok (major, c) =>
    if c.rest.head? ≠ some '.' then .error .malformed
    else match versionNumber c.next with
      | .error e => .error e
      | .ok (_, c) =>
        if atSpace c.rest then .ok (.version major, c) else .error .malformed

/-- Reads a handle and what it stands for. -/
def tagDirective (c : Cursor) : Except Fault (Directive × Cursor) :=
  match tagHandle c.skipSpaces with
  | .error e => .error e
  | .ok (handle, c) =>
    if c.rest.head? ≠ some ' ' then .error .malformed
    else match tagSuffix c.skipSpaces with
      | .error e => .error e
      | .ok (start, c) =>
        if atSpace c.rest then .ok (.tagHandle handle start, c) else .error .malformed

/-- Reads a directive, from its percent sign on, and the rest of its line. -/
def directive (c : Cursor) : Except Fault (Directive × Cursor) :=
  let (name, c) := c.next.span isNameChar
  let read : Except Fault (Directive × Cursor) :=
    if name.isEmpty || !atSpace c.rest then .error .malformed
    else if name = "YAML".toList then versionDirective c
    else if name = "TAG".toList then tagDirective c
    else .ok (.other, c.skipWhile (!isBreak ·))
  match read with
  | .error e => .error e
  | .ok (d, c) =>
    let c := c.skipSpaces.skipComment
    match c.break? with
    | some (_, c) => .ok (d, c)
    | none => if c.rest.isEmpty then .ok (d, c) else .error .malformed

end NestedTables.Yaml
