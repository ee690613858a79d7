import ContentNegotiation.Axis.Basic

/-!
# Language tags

A tag is a primary tag and subtags joined by hyphens. Case carries no meaning, so tags are kept in
a normal form: the primary tag in lower case, subtags of two bytes in upper case and all others in
lower case.
-/

namespace ContentNegotiation

/-- A language tag in normal case (`Language`). -/
structure LanguageTag where
  primary : Text
  subtags : List Text
  deriving DecidableEq, Repr

namespace LanguageTag

/-- A subtag of two bytes names a region and is written in upper case. -/
def isRegion (subtag : Text) : Bool :=
  Text.byteSize subtag == 2

/-- The normal case of a subtag (`normalize_subtag`). -/
def normalizeSubtag (subtag : Text) : Text :=
  if isRegion subtag then Text.upper subtag else Text.lower subtag

/-- Splits a tag at its hyphens and normalizes it, without checking it (`Language::new`). -/
def ofTag (tag : Text) : LanguageTag :=
  let (primary, subtags) := Text.pieces '-' (Text.trim tag)
  ⟨Text.lower primary, subtags.map normalizeSubtag⟩

/-- Appends a region to a tag, without checking either (`Language::with_region`). -/
def withRegion (tag region : Text) : LanguageTag :=
  let base := ofTag tag
  { base with subtags := base.subtags ++ [normalizeSubtag region] }

/-- The tag that matches every language. -/
def all : LanguageTag := ofTag wildcardText

/-- The first subtag of two bytes (`Language::region`). -/
def region (l : LanguageTag) : Option Text :=
  l.subtags.find? isRegion

/-- The written form (`Language::fmt`). -/
def print (l : LanguageTag) : Text :=
  l.primary ++ (l.subtags.map ('-' :: ·)).flatten

def isWildcard (l : LanguageTag) : Bool :=
  l.primary == wildcardText

/-- One to eight characters of the given class. -/
def isPart (p : Char → Bool) (t : Text) : Bool :=
  1 ≤ t.length && t.length ≤ 8 && t.all p

/-- The wildcard stands alone; otherwise the primary tag has one to eight letters and each subtag
one to eight letters or digits (`is_well_formed`). -/
def isWellFormed (l : LanguageTag) : Bool :=
  if l.isWildcard then l.subtags.isEmpty
  else isPart Char.isAlpha l.primary && l.subtags.all (isPart Char.isAlphanum)

/-- Reads a tag; `none` if it is not well formed (`Language::from_str`). -/
def read (t : Text) : Option LanguageTag :=
  let l := ofTag t
  if l.isWellFormed then some l else none

/-- Tags match if they agree as far as both go (`match_against`). -/
def specificity (preference candidate : LanguageTag) : Option Specificity :=
  if preference.isWildcard then some .wildcard
  else if preference.primary != candidate.primary then none
  else if preference.subtags == candidate.subtags then some .exact
  else
    let shared := min preference.subtags.length candidate.subtags.length
    if preference.subtags.take shared == candidate.subtags.take shared then some .family else none

instance : AxisValue LanguageTag where
  axis := .language
  print := print
  read := read
  isWildcard := isWildcard
  isWellFormed := isWellFormed
  specificity := specificity

end LanguageTag

end ContentNegotiation
