import ContentNegotiation.Toml.Scalar

/-!
# Quoted text of a TOML document

Basic strings have escapes and stand between double quotes, literal strings stand between single
quotes as they are written. Three quotes delimit text of several lines; its first line break is
dropped, and a backslash at the end of a line joins it to the next text. Each reader starts behind
the opening quotes and returns the text with what follows the closing ones.
-/

namespace ContentNegotiation.Toml

/-- A character that may stand in a string or comment: no control but the tab. -/
def isPrintable (c : Char) : Bool :=
  c = '\t' || (0x20 ≤ c.toNat && c.toNat != 0x7F)

/-- The character with a code point, if there is one. -/
def charOfCode (n : Nat) : Option Char :=
  if h : n.isValidChar then some (Char.ofNatAux n h) else none

/-- Reads the code point of an escape with a fixed number of digits. -/
def readCode (width : Nat) (t : Text) : Option (Char × Nat) :=
  let ds := t.take width
  if ds.length = width && ds.all isHex then
    (charOfCode (ds.foldl (fun n c => 16 * n + baseDigit c) 0)).map fun c => (c, width + 1)
  else none

/-- Reads an escape behind its backslash: the character, and how many characters wrote it. -/
def readEscape : Text → Option (Char × Nat)
  | [] => none
  | c :: t =>
    match c with
    | 'b' => some ('\x08', 1)
    | 't' => some ('\t', 1)
    | 'n' => some ('\n', 1)
    | 'f' => some ('\x0c', 1)
    | 'r' => some ('\r', 1)
    | 'e' => some ('\x1b', 1)
    | '"' => some ('"', 1)
    | '\\' => some ('\\', 1)
    | 'x' => readCode 2 t
    | 'u' => readCode 4 t
    | 'U' => readCode 8 t
    | _ => none

/-- Reads a basic string of one line. The first argument counts characters of an escape that is
already read. -/
def readBasic : Nat → Text → Option (Text × Text)
  | _, [] => none
  | skip + 1, _ :: t => readBasic skip t
  | 0, c :: t =>
    if c = '"' then some ([], t)
    else if c = '\\' then
      match readEscape t with
      | some (e, n) => (readBasic n t).map fun (s, rest) => (e :: s, rest)
      | none => none
    else if isPrintable c then (readBasic 0 t).map fun (s, rest) => (c :: s, rest)
    else none

/-- Reads a literal string of one line. -/
def readLiteral : Text → Option (Text × Text)
  | [] => none
  | c :: t =>
    if c = '\'' then some ([], t)
    else if isPrintable c then (readLiteral t).map fun (s, rest) => (c :: s, rest)
    else none

/-- Drops a line break right behind the opening quotes. -/
def dropFirstBreak : Text → Text
  | '\n' :: t => t
  | '\r' :: '\n' :: t => t
  | t => t

/-- Only blanks stand before the next line break. -/
def endsLine : Text → Bool
  | '\n' :: _ => true
  | '\r' :: '\n' :: _ => true
  | ' ' :: t => endsLine t
  | '\t' :: t => endsLine t
  | _ => false

/-- The closing quotes of a text of several lines with up to two quotes of the text before them:
those quotes, and what follows. -/
def closing (quote : Char) : Text → Option (Text × Text)
  | a :: b :: c :: t =>
    if a = quote && b = quote && c = quote then
      match t with
      | d :: e :: t =>
        if d = quote && e = quote then some ([quote, quote], t)
        else if d = quote then some ([quote], e :: t)
        else some ([], d :: e :: t)
      | [d] => if d = quote then some ([quote], []) else some ([], [d])
      | [] => some ([], [])
    else none
  | _ => none

/-- What the reader of a basic string of several lines is about to do. -/
inductive Joining where
  /-- Read the text. -/
  | reading
  /-- Drop characters of an escape that is already read. -/
  | dropping (count : Nat)
  /-- Drop blanks and line breaks behind a backslash at the end of a line. -/
  | joining

/-- Reads a basic string of several lines. -/
def readBasicLines : Joining → Text → Option (Text × Text)
  | _, [] => none
  | .dropping (n + 1), _ :: t => readBasicLines (.dropping n) t
  | mode, c :: t =>
    let blank := c = ' ' || c = '\t' || c = '\n'
    match mode, blank, c, t.head? with
    | .joining, true, _, _ => readBasicLines .joining t
    | .joining, _, '\r', some '\n' => readBasicLines .joining t
    | _, _, _, _ =>
      match closing '"' (c :: t) with
      | some (quotes, rest) => some (quotes, rest)
      | none =>
        if c = '\\' then
          if endsLine t then readBasicLines .joining t
          else
            match readEscape t with
            | some (e, n) => (readBasicLines (.dropping n) t).map fun (s, rest) => (e :: s, rest)
            | none => none
        else if isPrintable c || c = '\n' || (c = '\r' && t.head? = some '\n') then
          (readBasicLines .reading t).map fun (s, rest) => (c :: s, rest)
        else none

/-- Reads a literal string of several lines. -/
def readLiteralLines : Text → Option (Text × Text)
  | [] => none
  | c :: t =>
    match closing '\'' (c :: t) with
    | some (quotes, rest) => some (quotes, rest)
    | none =>
      if isPrintable c || c = '\n' || (c = '\r' && t.head? = some '\n') then
        (readLiteralLines t).map fun (s, rest) => (c :: s, rest)
      else none

/-- Reads a string from its opening quotes on; `none` where there is none. -/
def readString : Text → Option (Text × Text)
  | '"' :: '"' :: '"' :: t => readBasicLines .reading (dropFirstBreak t)
  | '\'' :: '\'' :: '\'' :: t => readLiteralLines (dropFirstBreak t)
  | '"' :: t => readBasic 0 t
  | '\'' :: t => readLiteral t
  | _ => none

end ContentNegotiation.Toml
