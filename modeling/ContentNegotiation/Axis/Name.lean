import ContentNegotiation.Axis.Basic

/-!
# Character sets and content codings

Both are single names that are compared in any case, so they are kept in lower case, and the common
other spellings of a name are replaced by the registered one.
-/

namespace ContentNegotiation

/-- A name in lower case without surrounding blanks, with aliases replaced. -/
def canonicalName (aliases : List (Text × Text)) (name : Text) : Text :=
  let name := Text.lower (Text.trim name)
  (aliases.lookup name).getD name

/-- The wildcard matches every name, any other name only itself (`match_against`). -/
def nameSpecificity (preference candidate : Text) : Option Specificity :=
  if preference == wildcardText then some .wildcard
  else if preference == candidate then some .exact
  else none

/-- A character set, such as `utf-8` (`CharacterSet`). -/
structure Charset where
  name : Text
  deriving DecidableEq, Repr

namespace Charset

/-- Spellings that stand for another registered name. -/
def aliases : List (Text × Text) :=
  [("utf8".toList, "utf-8".toList), ("latin1".toList, "iso-8859-1".toList)]

/-- The character set of that name, without checking the name (`CharacterSet::new`). -/
def ofName (name : Text) : Charset :=
  ⟨canonicalName aliases name⟩

def all : Charset := ofName wildcardText
def utf8 : Charset := ofName "utf-8".toList
def latin1 : Charset := ofName "iso-8859-1".toList
def ascii : Charset := ofName "us-ascii".toList

instance : AxisValue Charset where
  axis := .charset
  print c := c.name
  read t := if Text.isToken (Text.trim t) then some (ofName t) else none
  isWildcard c := c.name == wildcardText
  specificity p c := nameSpecificity p.name c.name

end Charset

/-- A content coding, such as `gzip` (`Encoding`). -/
structure ContentCoding where
  name : Text
  deriving DecidableEq, Repr

namespace ContentCoding

/-- Spellings that stand for another registered name. -/
def aliases : List (Text × Text) :=
  [("x-gzip".toList, "gzip".toList), ("x-compress".toList, "compress".toList)]

/-- The content coding of that name, without checking the name (`Encoding::new`). -/
def ofName (name : Text) : ContentCoding :=
  ⟨canonicalName aliases name⟩

def all : ContentCoding := ofName wildcardText
def identity : ContentCoding := ofName "identity".toList
def gzip : ContentCoding := ofName "gzip".toList
def deflate : ContentCoding := ofName "deflate".toList
def brotli : ContentCoding := ofName "br".toList

instance : AxisValue ContentCoding where
  axis := .coding
  print c := c.name
  read t := if Text.isToken (Text.trim t) then some (ofName t) else none
  isWildcard c := c.name == wildcardText
  specificity p c := nameSpecificity p.name c.name

end ContentCoding

end ContentNegotiation
