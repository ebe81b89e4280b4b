import NestedTables.Yaml.Token.Name
import NestedTables.Yaml.Token.Scalar

/-!
# From a text to tokens

`Token.scan` cuts a text into tokens. Two things are not decided where they are written.

A *block* has no mark of its own. It begins at a token whose column is greater than that of
the block around it, and ends before the first token whose column is less than its own.
`Lexer.columns` holds the columns of the open blocks.

A *simple key* is a node that turns out to be a key when a colon follows it. Until then the
lexer remembers where it began (`SimpleKey`), at most one for every open flow collection and
one for the blocks around them. When the colon comes, the mark of the key is put in front of
it. A simple key stays on one line and has at most 1024 characters; in a block it is the only
thing that can begin at the column of a mapping, so there a colon has to come.

Inside flow collections the indentation does not count.
-/

namespace NestedTables.Yaml

/-- A node that may turn out to be a key. -/
structure SimpleKey where
  /-- The number of tokens before it. -/
  place : Nat
  /-- Whether a colon has to follow. -/
  required : Bool
  start : Cursor
deriving DecidableEq, Repr

/-- A text that is being cut into tokens. -/
structure Lexer where
  cursor : Cursor
  /-- The tokens so far, the last one first. -/
  tokens : List Token := []
  /-- The number of the tokens so far. -/
  count : Nat := 0
  /-- The columns of the open blocks, the innermost first. -/
  columns : List Nat := []
  /-- Whether a simple key may begin here. -/
  keyAllowed : Bool := true
  /-- The possible keys of the open flow collections, the innermost first. -/
  flowKeys : List (Option SimpleKey) := []
  /-- The possible key of the innermost block. -/
  blockKey : Option SimpleKey := none

namespace Lexer

/-- A step that may fail. -/
abbrev Step := Except Fault Lexer

def inFlow (l : Lexer) : Bool :=
  !l.flowKeys.isEmpty

/-- The column of the innermost block. -/
def column? (l : Lexer) : Option Nat :=
  l.columns.head?

/-- Adds a token at the end. -/
def push (t : Token) (l : Lexer) : Lexer :=
  { l with tokens := t :: l.tokens, count := l.count + 1 }

/-- Adds a token at a place. -/
def insert (place : Nat) (t : Token) (l : Lexer) : Lexer :=
  { l with tokens := l.tokens.insertIdx (l.count - place) t, count := l.count + 1 }

/-- Adds a token of so many characters. -/
def take (characters : Nat) (t : Token) (l : Lexer) : Lexer :=
  { l.push t with cursor := l.cursor.skip characters }

def allowKey (allowed : Bool) (l : Lexer) : Lexer :=
  { l with keyAllowed := allowed }

/-! ### Blocks -/

/-- Ends the blocks whose column is greater than that of the next token. -/
def endBlocks (column : Nat) (l : Lexer) : Lexer :=
  if l.inFlow then l
  else
    let ended := l.columns.takeWhile (column < ·)
    let l := { l with columns := l.columns.drop ended.length }
    ended.foldl (fun l _ => l.push .blockEnd) l

/-- Ends all blocks. -/
def endAllBlocks (l : Lexer) : Lexer :=
  if l.inFlow then l
  else l.columns.foldl (fun l _ => l.push .blockEnd) { l with columns := [] }

/-- Begins a block at a column unless one with that column or a greater one is open. The token
that marks it is put at `place`. -/
def beginBlock (column place : Nat) (start : Token) (l : Lexer) : Lexer :=
  if l.column?.any (column ≤ ·) then l
  else (l.insert place start |> fun l => { l with columns := column :: l.columns })

/-! ### Simple keys -/

/-- The possible key of the innermost flow collection or, outside of them, of the block. -/
def possibleKey (l : Lexer) : Option SimpleKey :=
  match l.flowKeys with
  | k :: _ => k
  | [] => l.blockKey

def setPossibleKey (k : Option SimpleKey) (l : Lexer) : Lexer :=
  match l.flowKeys with
  | _ :: ks => { l with flowKeys := k :: ks }
  | [] => { l with blockKey := k }

/-- Gives up the possible key, unless a colon has to follow it. -/
def giveUpKey (l : Lexer) : Step :=
  if l.possibleKey.any SimpleKey.required then .error .malformed
  else .ok (l.setPossibleKey none)

/-- Remembers that the next token may begin a simple key. -/
def rememberKey (l : Lexer) : Step :=
  if !l.keyAllowed then .ok l
  else
    let required := !l.inFlow && l.column? = some l.cursor.column
    l.giveUpKey.map (·.setPossibleKey (some ⟨l.count, required, l.cursor⟩))

/-- The greatest number of characters of a simple key. -/
def longestKey : Nat := 1024

/-- Whether a possible key can no longer become one. -/
def isStale (c : Cursor) (k : SimpleKey) : Bool :=
  k.start.line ≠ c.line || c.index - k.start.index > longestKey

/-- Forgets the possible keys that can no longer become keys. -/
def forgetStale (l : Lexer) : Step :=
  if (l.blockKey.filter (isStale l.cursor)).any SimpleKey.required then .error .malformed
  else .ok { l with
    blockKey := l.blockKey.filter (!isStale l.cursor ·)
    flowKeys := l.flowKeys.map (·.filter (!isStale l.cursor ·)) }

/-! ### Between tokens -/

/-- The place of the next token, and whether a line has ended before it. -/
def toNextToken : Nat → Cursor → Bool → Cursor × Bool
  | 0, c, lineEnded => (c, lineEnded)
  | fuel + 1, c, lineEnded =>
    let c := c.skipSpaces.skipComment
    match c.break? with
    | some (_, c) => toNextToken fuel c true
    | none => (c, lineEnded)

/-- Goes to the next token. -/
def approach (l : Lexer) : Step :=
  let start := l.cursor
  let start :=
    if start.index = 0 && start.rest.head? = some byteOrderMark then start.next else start
  let (cursor, lineEnded) := toNextToken (start.rest.length + 1) start false
  let l := { l with cursor, keyAllowed := l.keyAllowed || (lineEnded && !l.inFlow) }
  l.forgetStale.map (endBlocks cursor.column)

/-! ### Kinds of tokens -/

/-- A mark between documents, of three characters. -/
def documentMark (t : Token) (l : Lexer) : Step :=
  l.endAllBlocks.giveUpKey.map fun l => (l.allowKey false).take 3 t

def directiveLine (l : Lexer) : Step := do
  let l ← l.endAllBlocks.giveUpKey
  let (d, cursor) ← directive l.cursor
  return { (l.allowKey false).push (.directive d) with cursor }

def openFlow (t : Token) (l : Lexer) : Step := do
  let l ← l.rememberKey
  return { (l.allowKey true).take 1 t with flowKeys := none :: l.flowKeys }

/-- The end of a flow collection; there has to be one. -/
def closeFlow (t : Token) (l : Lexer) : Step := do
  if !l.inFlow then throw .malformed
  let l ← l.giveUpKey
  return { (l.allowKey false).take 1 t with flowKeys := l.flowKeys.tail }

def flowEntry (l : Lexer) : Step :=
  (l.allowKey true).giveUpKey.map (·.take 1 .flowEntry)

/-- A mark that begins a block in block context, where it is only allowed in the place of a
simple key. -/
def blockMark (start : Token) (l : Lexer) : Step :=
  if l.inFlow then .ok l
  else if !l.keyAllowed then .error .malformed
  else .ok (l.beginBlock l.cursor.column l.count start)

def blockEntry (l : Lexer) : Step := do
  let l ← l.blockMark .blockSequenceStart
  let l ← (l.allowKey true).giveUpKey
  return l.take 1 .blockEntry

def markedKey (l : Lexer) : Step := do
  let l ← l.blockMark .blockMappingStart
  let l ← (l.allowKey !l.inFlow).giveUpKey
  return l.take 1 .key

/-- A colon. It makes the possible key a key if there is one. -/
def value (l : Lexer) : Step :=
  match l.possibleKey with
  | some k =>
    let l := (l.setPossibleKey none).insert k.place .key
    let l := if l.inFlow then l else l.beginBlock k.start.column k.place .blockMappingStart
    .ok ((l.allowKey false).take 1 .value)
  | none => do
    let l ← l.blockMark .blockMappingStart
    return (l.allowKey !l.inFlow).take 1 .value

/-- A token that may be a simple key. -/
def mayBeKey (read : Cursor → Except Fault (Token × Cursor)) (l : Lexer) : Step := do
  let l ← l.rememberKey
  let (t, cursor) ← read l.cursor
  return { (l.allowKey false).push t with cursor }

def plain (l : Lexer) : Step := do
  let l ← l.rememberKey
  let s := plainScalar l.inFlow ((l.column?.map (· + 1)).getD 0) l.cursor
  return { (l.allowKey s.lineEnded).push (.scalar (String.ofList s.text) true) with
    cursor := s.cursor }

def block (folds : Bool) (l : Lexer) : Step := do
  let l ← (l.allowKey true).giveUpKey
  let (text, cursor) ← blockScalar folds ((l.column?.map (· + 1)).getD 1) l.cursor
  return { l.push (.scalar (String.ofList text) false) with cursor }

/-- Whether a plain scalar can begin with a character; `after` is what follows it. -/
def beginsPlain (inFlow : Bool) (c : Char) (after : List Char) : Bool :=
  !(isSpaceOrTab c || isBreak c || "-?:,[]\x7b\x7d#&*!|>'\"%@`".toList.contains c) ||
    (!atBlank after && (c = '-' || (!inFlow && (c = '?' || c = ':'))))

/-- Reads the token that begins with a character. -/
def token (c : Char) (after : List Char) (l : Lexer) : Step :=
  let first := l.cursor.column = 0
  if first && c = '%' then l.directiveLine
  else if first && l.cursor.atMark '-' then l.documentMark .documentStart
  else if first && l.cursor.atMark '.' then l.documentMark .documentEnd
  else if c = '[' then l.openFlow .flowSequenceStart
  else if c = '\x7b' then l.openFlow .flowMappingStart
  else if c = ']' then l.closeFlow .flowSequenceEnd
  else if c = '\x7d' then l.closeFlow .flowMappingEnd
  else if c = ',' then l.flowEntry
  else if c = '-' && atBlank after then l.blockEntry
  else if c = '?' && (l.inFlow || atBlank after) then l.markedKey
  else if c = ':' && (l.inFlow || atBlank after) then l.value
  else if c = '*' then
    l.mayBeKey fun c => (anchorName c.next).map fun (name, c) => (.alias name, c)
  else if c = '&' then
    l.mayBeKey fun c => (anchorName c.next).map fun (name, c) => (.anchor name, c)
  else if c = '!' then l.mayBeKey fun c => (tag c).map fun (t, c) => (.tag t, c)
  else if c = '|' && !l.inFlow then l.block false
  else if c = '>' && !l.inFlow then l.block true
  else if c = '\'' || c = '"' then
    l.mayBeKey fun cursor => (quotedScalar (c = '"') cursor).map fun (text, cursor) =>
      (.scalar (String.ofList text) false, cursor)
  else if beginsPlain l.inFlow c after then l.plain
  else .error .malformed

/-- The number of the tokens before the first one that may be a key. -/
def decided (l : Lexer) : Nat :=
  (((l.blockKey :: l.flowKeys).filterMap id).filter (!isStale l.cursor ·)).foldl
    (fun n k => min n k.place) l.count

/-- The tokens before a fault, the last one first. A token that may be a key is not among them,
since it is not decided before the fault whether it is one. -/
def faulty (l : Lexer) (f : Fault) : List Token :=
  .fault f :: l.tokens.drop (l.count - l.decided)

/-- Reads the next token, and the ends of blocks before it; nothing if the text has ended. -/
def next? (l : Lexer) : Except Fault (Option Lexer) := do
  let l ← l.approach
  match l.cursor.rest with
  | [] => return none
  | c :: after => return some (← l.token c after)

/-- Ends the text. -/
def finish (l : Lexer) : Step := do
  (← l.approach).endAllBlocks.giveUpKey

/-- All tokens, the last one first. Every one takes a character at least. -/
def run : Nat → Lexer → List Token
  | 0, l => l.faulty .malformed
  | fuel + 1, l =>
    match l.next? with
    | .error f => l.faulty f
    | .ok (some l) => run fuel l
    | .ok none =>
      match l.finish with
      | .error f => l.faulty f
      | .ok l => l.tokens

end Lexer

/-- The tokens of a text. A text that is not made of tokens alone has those before its first
fault, and then the fault. -/
def Token.scan (text : List Char) : List Token :=
  (Lexer.run (text.length + 1) { cursor := ⟨text, 0, 0, 0⟩ }).reverse

end NestedTables.Yaml
