import ContentNegotiation.Axis.Basic

/-!
# Media types

A media type is written `main/sub; name=value; …`. Types and parameter names are kept in lower
case; parameter values are kept as written, without surrounding quotes.
-/

namespace ContentNegotiation

/-- A media type or media range with its parameters in written order. -/
structure MediaType where
  main : Text
  sub : Text
  parameters : List (Text × Text)
  deriving DecidableEq, Repr

namespace MediaType

/-- A media type without parameters (`MediaType::new`). -/
def ofTypes (main sub : Text) : MediaType :=
  ⟨Text.lower main, Text.lower sub, []⟩

/-- Appends a parameter (`with_parameter`). -/
def withParameter (m : MediaType) (name value : Text) : MediaType :=
  { m with parameters := m.parameters ++ [(Text.lower name, value)] }

/-- The range of all media types. -/
def all : MediaType := ofTypes wildcardText wildcardText

def textHtml : MediaType := ofTypes "text".toList "html".toList
def textPlain : MediaType := ofTypes "text".toList "plain".toList
def applicationJson : MediaType := ofTypes "application".toList "json".toList
def applicationXml : MediaType := ofTypes "application".toList "xml".toList

/-- The value of the first parameter of that name, in any case (`MediaType::parameter`). -/
def parameter (m : MediaType) (name : Text) : Option Text :=
  (m.parameters.find? fun p => Text.sameIgnoringCase p.1 name).map (·.2)

/-- The written form of one parameter, with the separator before it. -/
def printParameter (p : Text × Text) : Text :=
  "; ".toList ++ p.1 ++ '=' :: p.2

/-- The written form (`MediaType::fmt`). -/
def print (m : MediaType) : Text :=
  m.main ++ '/' :: m.sub ++ (m.parameters.map printParameter).flatten

/-- Reads `name=value` between two semicolons; blanks around either side and quotes around the
value do not count. -/
def readParameter (t : Text) : Option (Text × Text) := do
  let (name, value) ← Text.splitFirst '=' t
  let name := Text.trim name
  if Text.isToken name then some (Text.lower name, Text.strip '"' (Text.trim value)) else none

/-- Reads `main/sub`: both are tokens, and only a wildcard subtype may follow a wildcard type. -/
def readTypes (t : Text) : Option (Text × Text) := do
  let (main, sub) ← Text.splitFirst '/' t
  let main := Text.trim main
  let sub := Text.trim sub
  if Text.isToken main && Text.isToken sub && (main != wildcardText || sub == wildcardText) then
    some (Text.lower main, Text.lower sub)
  else none

/-- Reads a media type (`MediaType::from_str`). Blank parameters are skipped. -/
def read (t : Text) : Option MediaType := do
  let (types, rest) := Text.pieces ';' t
  let (main, sub) ← readTypes (Text.trim types)
  let parameters ← ((rest.map Text.trim).filter (!·.isEmpty)).mapM readParameter
  some ⟨main, sub, parameters⟩

/-- Only the range of all media types counts as the wildcard; its subtype is not looked at
(`is_wildcard`). -/
def isWildcard (m : MediaType) : Bool :=
  m.main == wildcardText

/-- Neither the type nor the subtype is a wildcard (`is_concrete`). -/
def isConcrete (m : MediaType) : Bool :=
  m.main != wildcardText && m.sub != wildcardText

/-- A range matches every type inside it; a full type matches a candidate of that type that has all
of its parameters (`match_against`). -/
def specificity (preference candidate : MediaType) : Option Specificity :=
  if preference.isWildcard then some .wildcard
  else if preference.main != candidate.main then none
  else if preference.sub == wildcardText then some .family
  else if preference.sub != candidate.sub then none
  else if preference.parameters.all fun p => candidate.parameter p.1 == some p.2 then some .exact
  else none

instance : AxisValue MediaType where
  axis := .mediaType
  print := print
  read := read
  isWildcard := isWildcard
  isConcrete := isConcrete
  specificity := specificity

end MediaType

end ContentNegotiation
