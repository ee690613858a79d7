import ContentNegotiation.Text.Character

/-!
# Negotiation axes

Representations of one resource differ along four axes: media type, language, character set and
content coding. `AxisValue` is what preference lists and scoring need to know of a value on one of
them: its text, whether it is a wildcard, and how closely it matches a candidate when it is taken
as a preference.
-/

namespace ContentNegotiation

/-- The axes along which representations differ. -/
inductive Axis where
  | mediaType
  | language
  | charset
  | coding
  deriving DecidableEq, Repr

namespace Axis

/-- What a value on the axis is called in messages. -/
def label : Axis → Text
  | mediaType => "media type".toList
  | language => "language".toList
  | charset => "character set".toList
  | coding => "encoding".toList

/-- The key under which the axis is configured. -/
def key : Axis → Text
  | mediaType => "media_type".toList
  | language => "language".toList
  | charset => "character_set".toList
  | coding => "encoding".toList

theorem forall_iff {P : Axis → Prop} :
    (∀ a, P a) ↔ P mediaType ∧ P language ∧ P charset ∧ P coding := by
  constructor
  · exact fun h => ⟨h _, h _, h _, h _⟩
  · rintro ⟨hm, hl, hc, ho⟩ a
    cases a <;> assumption

end Axis

/-- How closely a preference matched a candidate, from least to most specific. -/
inductive Specificity where
  /-- The preference matches anything. -/
  | wildcard
  /-- The preference names a family of values. -/
  | family
  /-- The values agree. -/
  | exact
  deriving DecidableEq, Repr

namespace Specificity

/-- The place in the order of specificity. -/
def rank : Specificity → Nat
  | wildcard => 0
  | family => 1
  | exact => 2

/-- Strictly less specific. -/
def below (s t : Specificity) : Bool :=
  s.rank < t.rank

end Specificity

/-- The values of one negotiation axis (`Metadata`). -/
class AxisValue (α : Type) where
  /-- The axis that the values belong to. -/
  axis : Axis
  /-- The written form. -/
  print : α → Text
  /-- Reads a written form; `none` if it breaks the grammar of the axis. -/
  read : Text → Option α
  /-- The value matches every candidate. -/
  isWildcard : α → Bool
  /-- No part of the value is a wildcard. -/
  isConcrete : α → Bool := fun v => !isWildcard v
  /-- The value obeys the grammar of the axis. -/
  isWellFormed : α → Bool := fun _ => true
  /-- How closely a preference, the first argument, matches a candidate, the second. -/
  specificity : α → α → Option Specificity

/-- The text of the wildcard. -/
def wildcardText : Text := ['*']

end ContentNegotiation
