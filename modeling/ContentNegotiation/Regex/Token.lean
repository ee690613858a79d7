import ContentNegotiation.Regex.Bracket

/-!
# Tokens of an expression

An expression is cut into tokens before groups and choices are assembled. Only verbose mode, in
which blanks and comments are ignored, changes how text is cut; it is switched by flags and ends
with the group in which it was switched on, so the lexer keeps the mode of every open group.
-/

namespace ContentNegotiation

namespace Regex

/-- A mode that flags switch on or off. -/
inductive Flag where
  | ignoreCase
  | multiLine
  | dotMatchesNewline
  | swapGreed
  | verbose
  deriving DecidableEq, Repr

namespace Flag

/-- The flag that a letter names. The letters `u` and `R` are refused: there is no mode without
Unicode, and a carriage return never ends a line. -/
def ofChar : Char → Option Flag
  | 'i' => some ignoreCase
  | 'm' => some multiLine
  | 's' => some dotMatchesNewline
  | 'U' => some swapGreed
  | 'x' => some verbose
  | _ => none

end Flag

/-- Flags with the setting they are given. -/
abbrev FlagSettings := List (Flag × Bool)

/-- The setting of a flag after a change. -/
def FlagSettings.apply (s : FlagSettings) (flag : Flag) (before : Bool) : Bool :=
  (s.lookup flag).getD before

/-- A token of an expression. -/
inductive Token where
  /-- A class, and how deep brackets are nested in it. -/
  | characters (k : CharClass) (height : Nat)
  /-- The dot. -/
  | dot
  /-- The caret, a start of text or of line. -/
  | caret
  /-- The dollar sign, an end of text or of line. -/
  | dollar
  | assertion (a : Assertion)
  /-- The start of a group: its name, if it has one, and the flags it sets. -/
  | openGroup (name : Option Text) (flags : FlagSettings)
  | closeGroup
  | bar
  /-- Flags for the rest of the group. -/
  | flags (settings : FlagSettings)
  /-- A repetition of what stands before it. -/
  | repetition (least : Nat) (most : Option Nat)
  deriving DecidableEq, Repr

/-- Reads flags up to the colon or the closing parenthesis after them, which is returned too. A
hyphen makes the rest switch off; it needs a flag after it. No flag may come twice. -/
def readFlags : Text → Bool → FlagSettings → Option (FlagSettings × Char × Text)
  | [], _, _ => none
  | c :: t, negated, s =>
    if c = ':' || c = ')' then some (s, c, t)
    else if c = '-' then
      match t with
      | ':' :: _ => none
      | ')' :: _ => none
      | _ => if negated then none else readFlags t true s
    else
      match Flag.ofChar c with
      | some flag =>
        if (s.lookup flag).isSome then none else readFlags t negated (s ++ [(flag, !negated)])
      | none => none

/-- The characters that may stand in the name of a group. -/
def isNameChar (first : Bool) (c : Char) : Bool :=
  if first then c == '_' || isAlphabetic c
  else c == '_' || c == '.' || c == '[' || c == ']' || isAlphanumeric c

/-- Reads the name of a group and the angle bracket after it. -/
def readGroupName (t : Text) : Option (Text × Text) :=
  let (name, rest) := t.span (· != '>')
  match name, rest with
  | c :: cs, '>' :: rest =>
    if isNameChar true c && cs.all (isNameChar false) then some (name, rest) else none
  | _, _ => none

/-- Reads a group's beginning behind its parenthesis. Lookaround is refused. -/
def readGroupStart : Text → Option (Token × Text)
  | '?' :: '=' :: _ => none
  | '?' :: '!' :: _ => none
  | '?' :: '<' :: '=' :: _ => none
  | '?' :: '<' :: '!' :: _ => none
  | '?' :: 'P' :: '<' :: t =>
    (readGroupName t).map fun (name, t) => (.openGroup (some name) [], t)
  | '?' :: '<' :: t => (readGroupName t).map fun (name, t) => (.openGroup (some name) [], t)
  | '?' :: t =>
    match readFlags t false [] with
    | some (s, ':', t) => some (.openGroup none s, t)
    | some (s, _, t) => if s.isEmpty then none else some (.flags s, t)
    | none => none
  | t => some (.openGroup none [], t)

/-- A question mark behind a repetition makes it lazy, which changes no answer. -/
def skipLazy : Text → Text
  | '?' :: t => t
  | t => t

/-- The largest count that a repetition may state. -/
def countLimit : Nat := 4294967295

/-- Reads a count of a repetition with the blanks around it. -/
def readCount (t : Text) : Option (Nat × Text) :=
  let (digits, rest) := (Text.trimStart t).span Char.isDigit
  let n := digits.foldl (fun n c => 10 * n + hexValue c) 0
  if digits.isEmpty || countLimit < n then none else some (n, Text.trimStart rest)

/-- Reads the counts of a repetition behind the opening brace. -/
def readCounts (verbose : Bool) (t : Text) : Option (Token × Text) := do
  let (least, t) ← readCount (skipIgnored verbose t)
  let finish (most : Option Nat) (t : Text) : Option (Token × Text) :=
    if most.all (least ≤ ·) then
      some (.repetition least most, skipLazy (skipIgnored verbose t))
    else none
  match t with
  | '\x7d' :: t => finish (some least) t
  | ',' :: t =>
    match skipIgnored verbose t with
    | '\x7d' :: t => finish none t
    | t =>
      match readCount t with
      | some (most, '\x7d' :: t) => finish (some most) t
      | _ => none
  | _ => none

/-- Reads one token; `none` on an error. The text is not empty. -/
def readToken (verbose : Bool) : Text → Option (Token × Text)
  | [] => none
  | '(' :: t => readGroupStart (skipIgnored verbose t)
  | ')' :: t => some (.closeGroup, t)
  | '|' :: t => some (.bar, t)
  | '[' :: t => (readBrackets verbose t).map fun (k, t) => (.characters k.chars k.height, t)
  | '?' :: t => some (.repetition 0 (some 1), skipLazy t)
  | '*' :: t => some (.repetition 0 none, skipLazy t)
  | '+' :: t => some (.repetition 1 none, skipLazy t)
  | '\x7b' :: t => readCounts verbose t
  | '.' :: t => some (.dot, t)
  | '^' :: t => some (.caret, t)
  | '$' :: t => some (.dollar, t)
  | '\\' :: t =>
    match readEscape verbose t with
    | some (.literal c, t) => some (.characters (.single c) 0, t)
    | some (.characters k, t) => some (.characters k 0, t)
    | some (.assertion a, t) => some (.assertion a, t)
    | none => none
  | c :: t => some (.characters (.single c) 0, t)

/-- The verbose mode after a token, with the modes to return to when groups close. -/
def modeAfter (verbose : Bool) (outer : List Bool) : Token → Bool × List Bool
  | .openGroup _ s => (s.apply .verbose verbose, verbose :: outer)
  | .closeGroup => (outer.headD verbose, outer.tail)
  | .flags s => (s.apply .verbose verbose, outer)
  | _ => (verbose, outer)

/-- Cuts a text into tokens; the first argument bounds their number. -/
def readTokens : Nat → Bool → List Bool → Text → Option (List Token)
  | bound, verbose, outer, t =>
    match skipIgnored verbose t, bound with
    | [], _ => some []
    | _, 0 => none
    | t, bound + 1 =>
      match readToken verbose t with
      | some (token, t) =>
        (readTokens bound (modeAfter verbose outer token).1 (modeAfter verbose outer token).2 t).map
          (token :: ·)
      | none => none

/-- The tokens of an expression; `none` on an error. -/
def tokens (source : Text) : Option (List Token) :=
  readTokens source.length false [] source

end Regex

end ContentNegotiation
