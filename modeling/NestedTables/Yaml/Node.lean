import NestedTables.Document.Entries
import NestedTables.Yaml.Tag
import NestedTables.Yaml.Token.Lexer

/-!
# Nodes

A document is a tree of tagged nodes. `Node.ofTokens?` reads it from tokens: it applies the
grammar of blocks and of flow collections, expands the handles of tags, gives a tag to every
node that has none, and puts the node of an anchor in the place of its aliases.

A scalar may be left out wherever a node may stand before a mark; it is then the empty plain
scalar. One stream holds at most one document.

An alias to a node that is not finished yet would make a tree without an end; it is refused.
-/

namespace NestedTables.Yaml

/-- A tree of tagged nodes. -/
inductive Node
  /-- A scalar at a place, which is the number of tokens from it to the end. -/
  | scalar (tag : Tag) (text : String) (place : Nat)
  | sequence (tag : Tag) (items : List Node)
  | mapping (tag : Tag) (entries : List (Node × Node))
deriving Repr

namespace Node

/-- The empty plain scalar. -/
def empty : Node := .scalar (.ofPlain "") "" 0

/-- What the reader of a document has before it and remembers. -/
structure Reader where
  tokens : List Token
  /-- The nodes by their anchors; nothing for one that is not finished. -/
  anchors : Entries String (Option Node) := []
  /-- What the handles of tags stand for. -/
  handles : Entries String String := [("!", "!"), ("!!", Tag.standard)]

/-- Reads a part of a document. -/
abbrev Read := StateT Reader (Except Fault)

/-- The next token, if there is one. A fault in its place is found only here, so what is wrong
before it comes first. -/
def peek : Read (Option Token) := do
  match (← get).tokens.head? with
  | some (.fault f) => throw f
  | t => return t

/-- Goes past the next token. -/
def advance : Read Unit :=
  modify fun r => { r with tokens := r.tokens.tail }

def malformed {α : Type} : Read α :=
  throw .malformed

/-- Goes past the next token, which has to be a certain one. -/
def expect (t : Token) : Read Unit := do
  if (← peek) = some t then advance else malformed

/-- Whether the next token is one of some; if so, nothing stands in the place of a node. -/
def nothingBefore (ends : List Token) : Read Bool := do
  return (← peek).any ends.contains

/-- What is said of a node before it begins. -/
structure Properties where
  anchor : Option String := none
  /-- The full text of the tag; the non-specific tag counts as none. -/
  tag : Option String := none
  /-- Whether a non-specific tag is there. -/
  nonSpecific : Bool := false

/-- Whether anything is said of a node. -/
def Properties.some (p : Properties) : Bool :=
  p.anchor.isSome || p.tag.isSome || p.nonSpecific

/-- The properties with a tag, its handle expanded. -/
def Properties.withTag (p : Properties) (t : WrittenTag) : Read Properties := do
  let start ← match t.handle with
    | none => pure ""
    | .some h =>
      match (← get).handles.get? h with
      | .some start => pure start
      | none => malformed
  let full := start ++ t.suffix
  return if full = "!" then { p with nonSpecific := true } else { p with tag := full }

/-- Reads an anchor and a tag in either order. -/
def properties : Read Properties := do
  match ← peek with
  | .some (.anchor name) =>
    advance
    let p : Properties := { anchor := name }
    match ← peek with
    | .some (.tag t) => advance; p.withTag t
    | _ => return p
  | .some (.tag t) =>
    advance
    let p ← ({} : Properties).withTag t
    match ← peek with
    | .some (.anchor name) => advance; return { p with anchor := name }
    | _ => return p
  | _ => return {}

/-- The tag of a collection. -/
def Properties.collectionTag (p : Properties) (untagged : Tag) : Tag :=
  (p.tag.map Tag.ofText).getD untagged

/-- The node that a scalar is. A scalar between quotes is a text unless it is tagged. -/
def Properties.scalarNode (p : Properties) (text : String) (plain : Bool) (place : Nat) : Node :=
  match p.tag with
  | .some t => .scalar (.ofText t) text place
  | none => .scalar (if plain || p.nonSpecific then .ofPlain text else .str) text place

/-- Takes an anchor for a node that begins; there may be only one of a name. -/
def announce (p : Properties) : Read Unit := do
  if let .some name := p.anchor then
    if (← get).anchors.has name then malformed
    modify fun r => { r with anchors := r.anchors.put name none }

/-- Gives a finished node to its anchor. -/
def finish (p : Properties) (n : Node) : Read Node := do
  if let .some name := p.anchor then
    modify fun r => { r with anchors := r.anchors.put name (.some n) }
  return n

/-- The node that an alias stands for. -/
def ofAlias (name : String) : Read Node := do
  match (← get).anchors.get? name with
  | .some (.some n) => return n
  | _ => malformed

/-- Where a node stands. -/
inductive Place
  /-- In a flow collection. -/
  | flow
  /-- In a block. -/
  | block
  /-- As a key or a value of a block mapping, where the hyphens of a sequence need not be
  indented. -/
  | blockEntry
deriving DecidableEq, Repr

mutual

/-- Reads a node. The first argument bounds the depth of the calls. -/
def node : Nat → Place → Read Node
  | 0, _ => malformed
  | fuel + 1, place => do
    if let .some (.alias name) ← peek then
      advance
      return ← ofAlias name
    let p ← properties
    let next ← peek
    announce p
    match next, place with
    | .some .blockEntry, .blockEntry =>
      finish p (.sequence (p.collectionTag .seq) (← looseItems fuel))
    | .some (.scalar text plain), _ =>
      let place := (← get).tokens.length
      advance
      finish p (p.scalarNode text plain place)
    | .some .flowSequenceStart, _ =>
      advance
      finish p (.sequence (p.collectionTag .seq) (← flowItems fuel true))
    | .some .flowMappingStart, _ =>
      advance
      finish p (.mapping (p.collectionTag .map) (← flowEntries fuel true))
    | .some .blockSequenceStart, .block | .some .blockSequenceStart, .blockEntry =>
      advance
      finish p (.sequence (p.collectionTag .seq) (← blockItems fuel))
    | .some .blockMappingStart, .block | .some .blockMappingStart, .blockEntry =>
      advance
      finish p (.mapping (p.collectionTag .map) (← blockEntries fuel))
    | _, _ =>
      let place := (← get).tokens.length
      if p.some then finish p (p.scalarNode "" true place) else malformed

/-- Reads a node, or nothing before one of some tokens. -/
def nodeOrEmpty : Nat → Place → List Token → Read Node
  | 0, _, _ => malformed
  | fuel + 1, place, ends => do
    if ← nothingBefore ends then return empty else node fuel place

/-- Reads the members of a block sequence. -/
def blockItems : Nat → Read (List Node)
  | 0 => malformed
  | fuel + 1 => do
    match ← peek with
    | .some .blockEntry =>
      advance
      let n ← nodeOrEmpty fuel .block [.blockEntry, .blockEnd]
      return n :: (← blockItems fuel)
    | .some .blockEnd => advance; return []
    | _ => malformed

/-- Reads the members of a sequence whose hyphens are not indented. -/
def looseItems : Nat → Read (List Node)
  | 0 => malformed
  | fuel + 1 => do
    match ← peek with
    | .some .blockEntry =>
      advance
      let n ← nodeOrEmpty fuel .block [.blockEntry, .key, .value, .blockEnd]
      return n :: (← looseItems fuel)
    | _ => return []

/-- Reads the value of an entry, if there is one. -/
def valueOrEmpty : Nat → Place → List Token → Read Node
  | 0, _, _ => malformed
  | fuel + 1, place, ends => do
    match ← peek with
    | .some .value => advance; nodeOrEmpty fuel place ends
    | _ => return empty

/-- Reads the entries of a block mapping. -/
def blockEntries : Nat → Read (List (Node × Node))
  | 0 => malformed
  | fuel + 1 => do
    match ← peek with
    | .some .key =>
      advance
      let k ← nodeOrEmpty fuel .blockEntry [.key, .value, .blockEnd]
      let v ← valueOrEmpty fuel .blockEntry [.key, .value, .blockEnd]
      return (k, v) :: (← blockEntries fuel)
    | .some .blockEnd => advance; return []
    | _ => malformed

/-- Reads the members of a flow sequence. A pair among them is a mapping of one entry. -/
def flowItems : Nat → (first : Bool) → Read (List Node)
  | 0, _ => malformed
  | fuel + 1, first => do
    if (← peek) = some .flowSequenceEnd then
      advance
      return []
    if !first then expect .flowEntry
    match ← peek with
    | .some .flowSequenceEnd => advance; return []
    | .some .key =>
      advance
      let k ← nodeOrEmpty fuel .flow [.value, .flowEntry, .flowSequenceEnd]
      let v ← valueOrEmpty fuel .flow [.flowEntry, .flowSequenceEnd]
      return .mapping .map [(k, v)] :: (← flowItems fuel false)
    | _ =>
      let n ← node fuel .flow
      return n :: (← flowItems fuel false)

/-- Reads the entries of a flow mapping. A node by itself is a key without a value. -/
def flowEntries : Nat → (first : Bool) → Read (List (Node × Node))
  | 0, _ => malformed
  | fuel + 1, first => do
    if (← peek) = some .flowMappingEnd then
      advance
      return []
    if !first then expect .flowEntry
    match ← peek with
    | .some .flowMappingEnd => advance; return []
    | .some .key =>
      advance
      let k ← nodeOrEmpty fuel .flow [.value, .flowEntry, .flowMappingEnd]
      let v ← valueOrEmpty fuel .flow [.flowEntry, .flowMappingEnd]
      return (k, v) :: (← flowEntries fuel false)
    | _ =>
      let k ← node fuel .flow
      return (k, empty) :: (← flowEntries fuel false)

end

/-- Reads the directives before a document, of which `seen` says whether there was a version
and `handles` which short forms there were. -/
def directives : Nat → (seen : Bool) → (handles : Entries String String) → Read Unit
  | 0, _, _ => malformed
  | fuel + 1, seen, handles => do
    match ← peek with
    | .some (.directive d) =>
      advance
      match d with
      | .version major =>
        if seen || major ≠ 1 then malformed else directives fuel true handles
      | .tagHandle h start =>
        if handles.has h then malformed else directives fuel seen (handles.put h start)
      | .other => directives fuel seen handles
    | _ => modify fun r =>
      { r with handles := r.handles.foldl (fun all e => all.putNew e.1 e.2) handles }

/-- The bound on the depth of the calls for a document. -/
def depthBound : Read Nat := do
  return 3 * (← get).tokens.length + 3

/-- Reads a document. One that begins with its mark may be empty. -/
def document : Read Node := do
  let bound ← depthBound
  match ← peek with
  | .some (.directive _) | .some .documentStart =>
    directives bound false []
    expect .documentStart
    match ← peek with
    | none | .some (.directive _) | .some .documentStart | .some .documentEnd => return empty
    | _ => node bound .block
  | _ => node bound .block

/-- The only document of a stream, if it has one. -/
def ofTokens? (tokens : List Token) : Except Fault (Option Node) :=
  match tokens with
  | [] => .ok none
  | tokens =>
    match document.run { tokens } with
    | .error e => .error e
    | .ok (n, r) =>
      match r.tokens.dropWhile (· = .documentEnd) with
      | [] => .ok (some n)
      | .fault f :: _ => .error f
      | _ => .error .malformed

end Node

end NestedTables.Yaml
