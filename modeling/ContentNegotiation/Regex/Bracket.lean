import ContentNegotiation.Regex.Basic

/-!
# Escapes and bracket classes

The reading of single characters behind a backslash and of classes between brackets. Brackets may be
nested, and inside of them `&&`, `--` and `~~` combine what stands before with what follows.

Every reader returns what it read and the text that remains. The readers that loop are given the
length of the text as a bound; each round uses up at least one character.
-/

namespace ContentNegotiation

namespace Regex

/-- A hexadecimal digit. -/
def isHexDigit (c : Char) : Bool :=
  c.isDigit || ('a' ≤ c && c ≤ 'f') || ('A' ≤ c && c ≤ 'F')

/-- The value of a hexadecimal digit. -/
def hexValue (c : Char) : Nat :=
  if c.isDigit then c.toNat - '0'.toNat else c.toLower.toNat - 'a'.toNat + 10

/-- The character with the code point that hexadecimal digits write, if there is one. -/
def charOfHex (digits : Text) : Option Char :=
  let n := digits.foldl (fun n c => 16 * n + hexValue c) 0
  if h : n.isValidChar then some (Char.ofNatAux n h) else none

/-- What an escape stands for. -/
inductive Escape where
  | literal (c : Char)
  | characters (k : CharClass)
  | assertion (a : Assertion)
  deriving DecidableEq, Repr

/-- Reads a code point behind its mark: a fixed number of digits, or any number between braces. -/
def readHex (width : Nat) : Text → Option (Escape × Text)
  | '\x7b' :: t =>
    let (digits, rest) := t.span isHexDigit
    match rest with
    | '\x7d' :: rest =>
      if digits.isEmpty then none else (charOfHex digits).map fun c => (.literal c, rest)
    | _ => none
  | t =>
    let digits := t.take width
    if digits.length = width && digits.all isHexDigit then
      (charOfHex digits).map fun c => (.literal c, t.drop width)
    else none

/-- Punctuation and blanks of ASCII stand for themselves behind a backslash. Angle brackets, letters
and digits do not. -/
def isEscapable (c : Char) : Bool :=
  c.toNat < 0x80 && !c.isAlphanum && c != '<' && c != '>'

/-- Drops the blanks and the comments, from `#` to the end of the line, of verbose mode. -/
def skipVerbose : Bool → Text → Text
  | _, [] => []
  | true, c :: t => skipVerbose (c != '\n') t
  | false, c :: t =>
    if isBlank c then skipVerbose false t
    else if c = '#' then skipVerbose true t
    else c :: t

/-- Drops what verbose mode ignores, if it is on. -/
def skipIgnored (verbose : Bool) (t : Text) : Text :=
  if verbose then skipVerbose false t else t

/-- A character in the name of a word boundary. -/
def isBoundaryChar (c : Char) : Bool :=
  c.isAlpha || c == '-'

/-- Reads the name of a word boundary up to its closing brace; the first argument bounds its
length. -/
def readBoundaryName (verbose : Bool) : Nat → Text → Option (Text × Text)
  | n + 1, c :: t =>
    if c = '\x7d' then some ([], t)
    else if isBoundaryChar c then
      (readBoundaryName verbose n (skipIgnored verbose t)).map fun (name, t) => (c :: name, t)
    else none
  | _, _ => none

/-- The word boundary with a name. -/
def namedBoundary (name : Text) : Option Assertion :=
  if name = "start".toList then some .wordStart
  else if name = "end".toList then some .wordEnd
  else if name = "start-half".toList then some .wordStartHalf
  else if name = "end-half".toList then some .wordEndHalf
  else none

/-- Reads a word boundary behind its letter: a name between braces may say which one it is. Braces
that hold no name are the counts of a repetition. -/
def readBoundary (verbose : Bool) : Text → Option (Escape × Text)
  | '\x7b' :: t =>
    match skipIgnored verbose t with
    | c :: u =>
      if isBoundaryChar c then do
        let (name, t) ← readBoundaryName verbose (u.length + 1) (c :: u)
        let a ← namedBoundary name
        some (.assertion a, t)
      else some (.assertion .wordBoundary, '\x7b' :: t)
    | [] => none
  | t => some (.assertion .wordBoundary, t)

/-- Reads what follows a backslash. The letters `p` and `P`, which name properties of characters,
are refused like any other letter without a meaning. -/
def readEscape (verbose : Bool) : Text → Option (Escape × Text)
  | [] => none
  | c :: t =>
    match c with
    | 'x' => readHex 2 t
    | 'u' => readHex 4 t
    | 'U' => readHex 8 t
    | 'd' => some (.characters .digit, t)
    | 's' => some (.characters .space, t)
    | 'w' => some (.characters .word, t)
    | 'D' => some (.characters (.complement .digit), t)
    | 'S' => some (.characters (.complement .space), t)
    | 'W' => some (.characters (.complement .word), t)
    | 'a' => some (.literal '\x07', t)
    | 'f' => some (.literal '\x0c', t)
    | 't' => some (.literal '\t', t)
    | 'n' => some (.literal '\n', t)
    | 'r' => some (.literal '\r', t)
    | 'v' => some (.literal '\x0b', t)
    | 'A' => some (.assertion .textStart, t)
    | 'z' => some (.assertion .textEnd, t)
    | 'b' => readBoundary verbose t
    | 'B' => some (.assertion .noWordBoundary, t)
    | '<' => some (.assertion .wordStart, t)
    | '>' => some (.assertion .wordEnd, t)
    | c => if isEscapable c then some (.literal c, t) else none

/-- How two classes in one pair of brackets are combined. -/
inductive ClassOperator where
  | intersection
  | difference
  | symmetricDifference
  deriving DecidableEq, Repr

/-- The combined class. -/
def ClassOperator.apply : ClassOperator → CharClass → CharClass → CharClass
  | intersection => .intersection
  | difference => .difference
  | symmetricDifference => .symmetricDifference

/-- How deep a row of parts is nested: a single part needs no row. -/
def rowHeight : List Nat → Nat
  | [] => 0
  | [h] => h
  | hs => 1 + hs.foldl max 0

/-- A class, and how deep brackets, rows of members and operators are nested in it. -/
structure NestedClass where
  chars : CharClass
  height : Nat
  deriving DecidableEq, Repr

namespace NestedClass

/-- A class without parts. -/
def leaf (k : CharClass) : NestedClass := ⟨k, 0⟩

/-- All members of a row, which is given from its last one on. -/
def row (members : List NestedClass) : NestedClass :=
  ⟨members.foldr (fun m k => .union k m.chars) .nothing, rowHeight (members.map height)⟩

/-- Two classes combined by an operator. -/
def combine (op : ClassOperator) (a b : NestedClass) : NestedClass :=
  ⟨op.apply a.chars b.chars, 1 + max a.height b.height⟩

end NestedClass

/-- A pair of brackets that is still open. -/
structure Bracket where
  negated : Bool
  /-- The operand before the last operator, with that operator. -/
  pending : Option (ClassOperator × NestedClass)
  /-- What stands after the last operator, last member first. -/
  members : List NestedClass

namespace Bracket

/-- Adds a member. -/
def add (b : Bracket) (k : NestedClass) : Bracket :=
  { b with members := k :: b.members }

/-- The operand before the last operator combined with what stands after it. -/
def combined (b : Bracket) : NestedClass :=
  match b.pending with
  | some (op, k) => .combine op k (.row b.members)
  | none => .row b.members

/-- Begins the operand after an operator. -/
def operator (b : Bracket) (op : ClassOperator) : Bracket :=
  { b with pending := some (op, b.combined), members := [] }

/-- The class of the closed pair. -/
def close (b : Bracket) : NestedClass :=
  ⟨if b.negated then .complement b.combined.chars else b.combined.chars, 1 + b.combined.height⟩

end Bracket

/-- The named classes of ASCII, written `[:name:]` inside brackets. -/
def asciiClasses : List (Text × CharClass) :=
  let upper : CharClass := .range 'A' 'Z'
  let lower : CharClass := .range 'a' 'z'
  let alpha := CharClass.union upper lower
  let decimal : CharClass := .range '0' '9'
  let blank := CharClass.union (.single ' ') (.single '\t')
  [("alnum".toList, .union alpha decimal), ("alpha".toList, alpha),
    ("ascii".toList, .range '\x00' '\x7f'), ("blank".toList, blank),
    ("cntrl".toList, .union (.range '\x00' '\x1f') (.single '\x7f')), ("digit".toList, decimal),
    ("graph".toList, .range '!' '~'), ("lower".toList, lower),
    ("print".toList, .range ' ' '~'),
    ("punct".toList, .difference (.range '!' '~') (.union alpha decimal)),
    ("space".toList, .union (.range '\t' '\r') (.single ' ')), ("upper".toList, upper),
    ("word".toList, .union (.union alpha decimal) (.single '_')),
    ("xdigit".toList, .union decimal (.union (.range 'A' 'F') (.range 'a' 'f')))]

/-- Reads a named class behind its opening bracket; `none` where there is none. -/
def readAsciiClass : Text → Option (CharClass × Text)
  | ':' :: t =>
    let (negated, t) := match t with
      | '^' :: t => (true, t)
      | t => (false, t)
    let (name, rest) := t.span (· != ':')
    match rest with
    | ':' :: ']' :: rest =>
      (asciiClasses.lookup name).map fun k => (if negated then .complement k else k, rest)
    | _ => none
  | _ => none

/-- Leading hyphens of a bracket stand for themselves. -/
def readHyphens (verbose : Bool) : Nat → Text → Bracket → Bracket × Text
  | n + 1, '-' :: t, b =>
    readHyphens verbose n (skipIgnored verbose t) (b.add (.leaf (.single '-')))
  | _, t, b => (b, t)

/-- Reads the start of a pair of brackets behind the opening one: a caret negates, and a closing
bracket that comes first stands for itself. -/
def openBracket (verbose : Bool) (t : Text) : Bracket × Text :=
  let t := skipIgnored verbose t
  let (negated, t) := match t with
    | '^' :: t => (true, skipIgnored verbose t)
    | t => (false, t)
  let start : Bracket := ⟨negated, none, []⟩
  match t with
  | '-' :: _ => readHyphens verbose t.length t start
  | ']' :: t => (start.add (.leaf (.single ']')), skipIgnored verbose t)
  | t => (start, t)

/-- Reads one character or escape of a class. -/
def readClassItem (verbose : Bool) : Text → Option (Escape × Text)
  | [] => none
  | '\\' :: t => readEscape verbose t
  | c :: t => some (.literal c, t)

/-- Reads one member of a class: an escape, a character or a range between two characters. A hyphen
before the closing bracket or before another hyphen makes no range. -/
def readMember (verbose : Bool) (t : Text) : Option (CharClass × Text) := do
  let (first, t) ← readClassItem verbose t
  let t := skipIgnored verbose t
  let alone : Option (CharClass × Text) := match first with
    | .literal c => some (.single c, t)
    | .characters k => some (k, t)
    | .assertion _ => none
  match t with
  | '-' :: u =>
    let u := skipIgnored verbose u
    match u with
    | ']' :: _ => alone
    | '-' :: _ => alone
    | _ =>
      let (second, rest) ← readClassItem verbose u
      match first, second with
      | .literal low, .literal high => if low ≤ high then some (.range low high, rest) else none
      | _, _ => none
  | _ => alone

/-- Reads the rest of a class, given the open pairs of brackets from the inside out. -/
def readClass (verbose : Bool) : Nat → Bracket → List Bracket → Text → Option (NestedClass × Text)
  | 0, _, _, _ => none
  | n + 1, b, outer, t =>
    match skipIgnored verbose t with
    | [] => none
    | ']' :: t =>
      match outer with
      | [] => some (b.close, t)
      | o :: outer => readClass verbose n (o.add b.close) outer t
    | '[' :: t =>
      match readAsciiClass t with
      | some (k, t) => readClass verbose n (b.add (.leaf k)) outer t
      | none =>
        let (inner, t) := openBracket verbose t
        readClass verbose n inner (b :: outer) t
    | '&' :: '&' :: t => readClass verbose n (b.operator .intersection) outer t
    | '-' :: '-' :: t => readClass verbose n (b.operator .difference) outer t
    | '~' :: '~' :: t => readClass verbose n (b.operator .symmetricDifference) outer t
    | t =>
      match readMember verbose t with
      | some (k, t) => readClass verbose n (b.add (.leaf k)) outer t
      | none => none

/-- Reads a class behind its opening bracket. -/
def readBrackets (verbose : Bool) (t : Text) : Option (NestedClass × Text) :=
  let (b, rest) := openBracket verbose t
  readClass verbose t.length b [] rest

end Regex

end ContentNegotiation
