import ContentNegotiation.Toml.Quoted

/-!
# TOML documents

A document is a row of lines: headers of tables and of elements of arrays of tables, and keys with
values, which go to the table of the last header. Keys may be dotted and quoted. Arrays and inline
tables may span lines and hold comments. How deep brackets may be nested and how many keys a dotted
key may have is limited.

The readers that loop are given a bound that the length of the text yields: each round, and each
bracket with the value in it, uses up at least one character.
-/

namespace ContentNegotiation.Toml

/-- Drops spaces and tabs. -/
def skipSpace : Text → Text :=
  List.dropWhile fun c => c = ' ' || c = '\t'

/-- Drops a comment if one begins here; `none` if it holds a control character. -/
def skipComment : Text → Option Text
  | '#' :: t =>
    let rest := t.dropWhile isPrintable
    match rest with
    | [] => some []
    | '\n' :: _ => some rest
    | '\r' :: '\n' :: _ => some rest
    | _ => none
  | t => some t

/-- Drops spaces, a comment and the end of the line. -/
def finishLine (t : Text) : Option Text := do
  match ← skipComment (skipSpace t) with
  | [] => some []
  | '\n' :: t => some t
  | '\r' :: '\n' :: t => some t
  | _ => none

/-- Drops spaces, line breaks and comments; the first argument bounds the rounds. -/
def skipFiller : Nat → Text → Option Text
  | 0, t => some t
  | n + 1, t =>
    match skipSpace t with
    | '\n' :: t => skipFiller n t
    | '\r' :: '\n' :: t => skipFiller n t
    | '#' :: t => do skipFiller n (← skipComment ('#' :: t))
    | t => some t

/-- A character of a key without quotes. -/
def isBareKeyChar (c : Char) : Bool :=
  c.isAlphanum || c = '_' || c = '-'

/-- Reads one key. -/
def readSimpleKey : Text → Option (Text × Text)
  | '"' :: t => readBasic 0 t
  | '\'' :: t => readLiteral t
  | t =>
    let (key, rest) := t.span isBareKeyChar
    if key.isEmpty then none else some (key, rest)

/-- The most keys that one dotted key may have. -/
def keyLimit : Nat := 80

/-- How deep brackets may be nested. -/
def nestingLimit : Nat := 80

/-- Reads a dotted key of so many keys at most: the keys of the path, and the last key. -/
def readKey : Nat → Text → Option (List Text × Text × Text)
  | 0, _ => none
  | n + 1, t => do
    let (key, rest) ← readSimpleKey t
    match skipSpace rest with
    | '.' :: rest =>
      let (path, last, rest) ← readKey n (skipSpace rest)
      some (key :: path, last, rest)
    | rest => some ([], key, rest)

/-- Characters that end a value without quotes. -/
def endsScalar (c : Char) : Bool :=
  [' ', '\t', '\n', '\r', ',', '=', '[', ']', '\x7b', '\x7d', '#'].contains c

/-- Reads a value without quotes. A space may stand between a date and a time. -/
def readBareValue (t : Text) : Option (Value × Text) := do
  let word := t.takeWhile (!endsScalar ·)
  let rest := t.dropWhile (!endsScalar ·)
  match afterDate word, rest with
  | some [], ' ' :: c :: rest =>
    if c.isDigit then
      let time := (c :: rest).takeWhile (!endsScalar ·)
      let v ← readScalar (word ++ ' ' :: time)
      some (v, (c :: rest).dropWhile (!endsScalar ·))
    else some (.dateTime, ' ' :: c :: rest)
  | _, _ => (readScalar word).map fun v => (v, rest)

/-- A kind of bracket whose content is being read, with what was read of it. -/
inductive Content where
  | items (read : List Value)
  | entries (read : Table)

mutual

/-- Reads a value in which `depth` more brackets may be nested. -/
def readValue : Nat → Nat → Text → Option (Value × Text)
  | 0, _, _ => none
  | n + 1, depth, t =>
    match t, depth with
    | '[' :: t, depth + 1 => readContent n depth (.items []) t
    | '\x7b' :: t, depth + 1 => readContent n depth (.entries (.empty .header)) t
    | '"' :: _, _ => (readString t).map fun (s, rest) => (.string s, rest)
    | '\'' :: _, _ => (readString t).map fun (s, rest) => (.string s, rest)
    | t, _ => readBareValue t

/-- Reads the rest of an array or of an inline table, up to its closing bracket. A comma follows
each member, and may be missing after the last. -/
def readContent : Nat → Nat → Content → Text → Option (Value × Text)
  | 0, _, _, _ => none
  | n + 1, depth, content, t => do
    let t ← skipFiller t.length t
    let next (content : Content) (t : Text) : Option (Value × Text) := do
      match ← skipFiller t.length t with
      | ',' :: t => readContent n depth content t
      | ']' :: t => readContent n depth content (']' :: t)
      | '\x7d' :: t => readContent n depth content ('\x7d' :: t)
      | _ => none
    match content, t with
    | .items vs, ']' :: t => some (.array false vs.reverse, t)
    | .entries e, '\x7d' :: t => some (.table .inline e.entries, t)
    | .items vs, t =>
      let (v, t) ← readValue n depth t
      next (.items (v :: vs)) t
    | .entries e, t =>
      let (path, key, t) ← readKey keyLimit t
      match ← skipFiller t.length t with
      | '=' :: t =>
        let (v, t) ← readValue n depth (← skipFiller t.length t)
        next (.entries (← e.insert path key v)) t
      | _ => none

end

/-- A document of which some lines are read. -/
structure Draft where
  root : Table
  /-- The keys of the last header. -/
  current : List Text

namespace Draft

/-- Adds a value to the table of the last header. -/
def insert (d : Draft) (path : List Text) (key : Text) (v : Value) : Option Draft := do
  let root ← d.root.update false (Table.insert path key v) d.current
  some { d with root }

/-- Takes in a header. -/
def header (d : Draft) (element : Bool) (path : List Text) (key : Text) : Option Draft := do
  let root ← if element then d.root.openElement path key else d.root.openTable path key
  some ⟨root, path ++ [key]⟩

end Draft

/-- Reads a header behind its opening brackets. -/
def readHeader (element : Bool) (t : Text) (d : Draft) : Option (Draft × Text) := do
  let (path, key, t) ← readKey keyLimit (skipSpace t)
  let d ← d.header element path key
  match element, t with
  | true, ']' :: ']' :: t => some (d, t)
  | false, ']' :: t => some (d, t)
  | _, _ => none

/-- Reads a key with its value. -/
def readEntry (t : Text) (d : Draft) : Option (Draft × Text) := do
  let (path, key, t) ← readKey keyLimit t
  match t with
  | '=' :: t =>
    let (v, t) ← readValue (2 * t.length + 1) nestingLimit (skipSpace t)
    let d ← d.insert path key v
    some (d, t)
  | _ => none

/-- Reads line after line; the first argument bounds their number. -/
def readLines : Nat → Text → Draft → Option Table
  | 0, _, d => some d.root
  | n + 1, t, d =>
    match skipSpace t with
    | [] => some d.root
    | '[' :: '[' :: t => do
      let (d, t) ← readHeader true t d
      readLines n (← finishLine t) d
    | '[' :: t => do
      let (d, t) ← readHeader false t d
      readLines n (← finishLine t) d
    | '#' :: t => do readLines n (← finishLine ('#' :: t)) d
    | '\n' :: t => readLines n t d
    | '\r' :: '\n' :: t => readLines n t d
    | t => do
      let (d, t) ← readEntry t d
      readLines n (← finishLine t) d

/-- A byte order mark at the start of a document is not part of it. -/
def dropMark : Text → Text
  | '\ufeff' :: t => t
  | t => t

/-- Reads a document; `none` if it breaks the grammar. -/
def read (document : Text) : Option Value :=
  let t := dropMark document
  (readLines (t.length + 1) t ⟨.empty .header, []⟩).map Table.toValue

end ContentNegotiation.Toml
