import NestedTables.CommandLine.Option
import NestedTables.Text.DecimalDigit

/-!
# Reading the command line

A word of the command line is an option if it begins with a hyphen, unless it is a single
hyphen, a negative number, or has a space and could not be short for an option. A name may be
shortened as long as it stays the only one with that beginning. A value follows as a word of
its own, behind an equals sign, or right behind the letter of an option with one hyphen; such
letters can also be put together in one word, where every letter but the last one has to be an
option without a value. After two hyphens no word is an option.

There are two conventions for what is attached to an option in its word (`Convention`). In the
older one two hyphens are no value even there, and the option is given nothing; an equals sign
behind letters is a letter too, and a letter that is no option is refused. In the newer one
everything that is attached can be a value, an equals sign behind letters begins one, and letters
that are no options are left over, as words are that belong to no option.

All words are told apart before any option is looked at. Then the options take effect one
after the other, so help and the version are given only if nothing was wrong before.
-/

namespace NestedTables.CommandLine

/-! ### Kinds of words -/

/-- The conventions for what is attached to an option. -/
inductive Convention
  | older
  | newer
deriving DecidableEq, Repr

/-- What is attached to an option in its word. -/
inductive Attached
  | nothing
  /-- What stands right behind the letter of an option with one hyphen. -/
  | behind (cs : List Char)
  /-- What stands behind an equals sign. -/
  | equals (cs : List Char)
deriving DecidableEq, Repr

/-- A word of the command line. -/
inductive Word
  /-- An option by its full name, and what is attached to it. -/
  | option (f : Flag) (name : String) (attached : Attached)
  /-- A word that looks like an option but is none. -/
  | unknown (text : String)
  /-- A value or a word that belongs to no option. -/
  | plain (text : String)
  /-- The two hyphens that end the options. -/
  | hyphens
deriving DecidableEq, Repr

/-- A word up to its first equals sign, and what is attached there. -/
def atEquals (cs : List Char) : List Char × Attached :=
  match cs.dropWhile (· ≠ '=') with
  | [] => (cs, .nothing)
  | _ :: value => (cs.takeWhile (· ≠ '='), .equals value)

/-- Whether a word is a negative number: digits of any script, perhaps with a point before some
of them, and perhaps a line feed at the end. -/
def isNegativeNumber (cs : List Char) : Bool :=
  match cs with
  | '-' :: body =>
    let body := if body.getLast? = some '\n' then body.dropLast else body
    let isDigit (c : Char) : Bool := (Text.decimalValue? c).isSome
    let digits (cs : List Char) : Bool := !cs.isEmpty && cs.all isDigit
    digits body ||
      (match body.dropWhile isDigit with
        | '.' :: places => digits places
        | _ => false)
  | _ => false

/-- The options that a word could be short for. -/
def candidates (word : String) : List (Flag × String × Attached) :=
  match word.toList with
  | '-' :: '-' :: _ =>
    let (start, attached) := atEquals word.toList
    Flag.table.filterMap fun (name, f) =>
      if start.isPrefixOf name.toList then some (f, name, attached) else none
  | '-' :: letter :: value =>
    Flag.table.filterMap fun (name, f) =>
      if name.toList = ['-', letter] then some (f, name, .behind value)
      else if word.toList.isPrefixOf name.toList then some (f, name, .nothing)
      else none
  | _ => []

/-- The kind of a word before any two hyphens. -/
def wordOf (word : String) : Except Refusal Word :=
  match word.toList with
  | '-' :: _ :: _ =>
    match Flag.ofName? word, atEquals word.toList with
    | some f, _ => .ok (.option f word .nothing)
    | none, (name, attached) =>
      match Flag.ofName? (String.ofList name) with
      | some f => .ok (.option f (String.ofList name) attached)
      | none =>
        match candidates word with
        | [(f, name, attached)] => .ok (.option f name attached)
        | [] =>
          if isNegativeNumber word.toList || word.toList.contains ' ' then .ok (.plain word)
          else .ok (.unknown word)
        | found => .error (.ambiguous word (found.map (·.2.1)))
  | _ => .ok (.plain word)

/-- The kinds of all words. -/
def wordsOf : List String → Except Refusal (List Word)
  | [] => .ok []
  | word :: rest =>
    if word = "--" then .ok (.hyphens :: rest.map .plain)
    else
      match wordOf word, wordsOf rest with
      | .error e, _ | _, .error e => .error e
      | .ok w, .ok ws => .ok (w :: ws)

/-! ### The effects of options -/

/-- What is given to an option. -/
inductive Given
  | text (s : String)
  | nothing
deriving DecidableEq, Repr

/-- What the characters that are attached to an option give to it. -/
def Given.ofAttached (c : Convention) (cs : List Char) : Given :=
  if c = .older && cs = ['-', '-'] then .nothing else .text (String.ofList cs)

/-- The language of the output where none is given. -/
def defaultFormat : String := "json"

/-- What a command line asks for. -/
structure Arguments where
  schema : Option Given := none
  format : String := defaultFormat
  validateOnly : Bool := false
  overridePrefix : Option Given := none
  idColumn : Option Given := none
  virtual : List Given := []
  /-- How often more of the log was asked for. -/
  verbosity : Nat := 0
  quiet : Bool := false
deriving DecidableEq, Repr

/-- Why reading a command line ends early. -/
inductive Stop
  | help
  | version
  | refused (r : Refusal)
deriving DecidableEq, Repr

/-- A command line that is being read. -/
structure Progress where
  arguments : Arguments := {}
  /-- The words that belong to no option. -/
  extras : List String := []
deriving DecidableEq, Repr

namespace Progress

/-- Whether one of the two options that exclude each other is there. -/
def has (p : Progress) : Flag → Bool
  | .verbose => p.arguments.verbosity > 0
  | .quiet => p.arguments.quiet
  | _ => false

/-- Lets an option take effect with what is given to it. -/
def apply (p : Progress) (f : Flag) (value : Given) : Except Stop Progress :=
  let a := p.arguments
  match f with
  | .help => .error .help
  | .version => .error .version
  | .schema => .ok { p with arguments := { a with schema := some value } }
  | .format =>
    match value with
    | .nothing => .ok { p with arguments := { a with format := defaultFormat } }
    | .text s =>
      if formatNames.contains s then .ok { p with arguments := { a with format := s } }
      else .error (.refused (.unknownFormat s))
  | .validateOnly => .ok { p with arguments := { a with validateOnly := true } }
  | .overridePrefix => .ok { p with arguments := { a with overridePrefix := some value } }
  | .idColumn => .ok { p with arguments := { a with idColumn := some value } }
  | .virtual => .ok { p with arguments := { a with virtual := a.virtual ++ [value] } }
  | .verbose =>
    if p.has .quiet then .error (.refused (.rivals .verbose .quiet))
    else .ok { p with arguments := { a with verbosity := a.verbosity + 1 } }
  | .quiet =>
    if p.has .verbose then .error (.refused (.rivals .quiet .verbose))
    else .ok { p with arguments := { a with quiet := true } }

def applyAll (p : Progress) : List (Flag × Given) → Except Stop Progress
  | [] => .ok p
  | (f, value) :: rest =>
    match p.apply f value with
    | .ok p => p.applyAll rest
    | .error e => .error e

/-- The same with more words that belong to no option. -/
def leaving (p : Progress) (words : List String) : Progress :=
  { p with extras := p.extras ++ words }

end Progress

/-- What the options in one word come to. -/
structure WordEffect where
  /-- The options and what is given to them. -/
  options : List (Flag × Given) := []
  /-- An option at the end whose value has to be the next word. -/
  pending : Option Flag := none
  /-- Letters that are no options, as a word of their own. -/
  extra : Option String := none
deriving DecidableEq, Repr

/-- The same behind an option without a value. -/
def WordEffect.after (f : Flag) (e : WordEffect) : WordEffect :=
  { e with options := (f, .nothing) :: e.options }

/-- An option that has its word for itself. -/
def effectAlone (f : Flag) : WordEffect :=
  if f.takesValue then { pending := some f } else { options := [(f, .nothing)] }

/-- An option with a value that is attached to it, which is refused if it takes none. -/
def effectOfValue (c : Convention) (f : Flag) (cs : List Char) : Except Refusal WordEffect :=
  if f.takesValue then .ok { options := [(f, .ofAttached c cs)] }
  else .error (.valueIgnored f (String.ofList cs))

/-- Reads the letters behind an option with one hyphen. They are a value if it takes one, and
options if it does not. -/
def effectOfLetters (c : Convention) (f : Flag) : List Char → Except Refusal WordEffect
  | [] => .ok (effectAlone f)
  | letter :: rest =>
    if f.takesValue || (c = .newer && letter = '-') then effectOfValue c f (letter :: rest)
    else match Flag.ofName? (String.ofList ['-', letter]) with
      | none =>
        match c with
        | .older => effectOfValue c f (letter :: rest)
        | .newer =>
          let left := String.ofList ('-' :: letter :: rest)
          .ok { options := [(f, .nothing)], extra := some left }
      | some g =>
        Except.map (.after f) <| match c, rest with
          | .newer, '=' :: value => effectOfValue c g value
          | _, _ => effectOfLetters c g rest

/-- Reads an option with what is attached to it. -/
def effectOf (c : Convention) (f : Flag) (single : Bool) : Attached → Except Refusal WordEffect
  | .nothing => .ok (effectAlone f)
  | .behind cs => effectOfLetters c f cs
  | .equals cs =>
    if c = .older && single && !cs.isEmpty then effectOfLetters c f cs else effectOfValue c f cs

/-- Whether a name has one hyphen. -/
def isSingle (name : String) : Bool :=
  name.toList.drop 1 |>.head?.any (· ≠ '-')

/-- Reads words in order. -/
def readWords (c : Convention) : List Word → Progress → Except Stop Progress
  | [], p => .ok p
  | .plain text :: rest, p => readWords c rest (p.leaving [text])
  | .unknown text :: rest, p => readWords c rest (p.leaving [text])
  | .hyphens :: rest, p => readWords c rest (p.leaving ["--"])
  | .option f name attached :: rest, p =>
    match effectOf c f (isSingle name) attached with
    | .error r => .error (.refused r)
    | .ok effect =>
      match effect.pending, rest with
      | some g, .plain value :: rest =>
        match p.applyAll (effect.options ++ [(g, .text value)]) with
        | .ok p => readWords c rest p
        | .error e => .error e
      | some g, _ => .error (.refused (.valueMissing g))
      | none, rest =>
        match p.applyAll effect.options with
        | .ok p => readWords c rest (p.leaving effect.extra.toList)
        | .error e => .error e

/-- Reads a command line. -/
def read (c : Convention) (words : List String) : Except Stop Arguments :=
  match wordsOf words with
  | .error r => .error (.refused r)
  | .ok ws =>
    match readWords c ws {} with
    | .error e => .error e
    | .ok p =>
      if p.arguments.schema.isNone then .error (.refused .schemaMissing)
      else if p.extras.isEmpty then .ok p.arguments
      else .error (.refused (.unrecognized p.extras))

end NestedTables.CommandLine
