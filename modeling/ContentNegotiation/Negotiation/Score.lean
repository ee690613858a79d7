import ContentNegotiation.Negotiation.Settings
import ContentNegotiation.Negotiation.Variant
import ContentNegotiation.Preference.Basic

/-!
# Scoring a variant

Each axis is scored on its own. Where the client states preferences and the variant has a value, the
score is the best quality among the entries that match, with the greatest specificity among equal
qualities; everywhere else the axis is neutral. The weighted sum of the four qualities is the total.

A variant is acceptable if it scores above zero on every mandatory axis, that is, on every axis
whose list has an entry that is not a wildcard.
-/

namespace ContentNegotiation

/-- The score of a variant on one axis. -/
structure AxisScore where
  /-- The quality of the chosen entry. -/
  quality : Single
  /-- How the chosen entry matched; `none` where no entry was chosen. -/
  specificity : Option Specificity
  deriving DecidableEq, Repr

namespace AxisScore

/-- The score of an axis without constraint. -/
def neutral : AxisScore := ⟨Binary.one, none⟩

/-- The score of an axis on which no entry matches. -/
def unmatched : AxisScore := ⟨Binary.zero, none⟩

/-- A match is better if its quality is higher, or equal and its specificity greater. -/
def better (new old : Single × Specificity) : Bool :=
  old.1.less new.1 || (new.1.sameValue old.1 && old.2.below new.2)

/-- Keeps the better of two matches, the earlier one if neither is better. -/
def keepBetter (best : Option (Single × Specificity)) (new : Single × Specificity) :
    Option (Single × Specificity) :=
  match best with
  | none => some new
  | some old => if better new old then some new else some old

variable {α : Type} [AxisValue α]

/-- The entries that match a value, each with its quality and specificity. -/
def hits (l : AcceptList α) (v : α) : List (Single × Specificity) :=
  l.filterMap fun e => (AxisValue.specificity e.value v).map fun s => (e.quality.value, s)

/-- The score on one axis (`score_axis`). -/
def of (accepted : Option (AcceptList α)) (value : Option α) : AxisScore :=
  match accepted, value with
  | some [], _ => neutral
  | some (e :: l), some v =>
    match (hits (e :: l) v).foldl keepBetter none with
    | some (quality, specificity) => ⟨quality, some specificity⟩
    | none => unmatched
  | _, _ => neutral

/-- The axis is mandatory and the score is zero (`passes` fails). -/
def rejects (accepted : Option (AcceptList α)) (score : AxisScore) : Bool :=
  accepted.any AcceptList.hasConcreteEntry && !Binary.zero.less score.quality

end AxisScore

/-- The score of a variant. -/
structure VariantScore where
  axes : PerAxis fun _ => AxisScore
  /-- The weighted sum of the axis qualities. -/
  total : Single
  /-- Every mandatory axis scored above zero. -/
  acceptable : Bool

/-- Scores the values of a variant against what the client accepts (`score_variant`). -/
def Negotiator.score (n : Negotiator) (accepted : Preferences) (v : Variant) : VariantScore :=
  let axes : PerAxis fun _ => AxisScore := accepted.zipWith AxisScore.of v.values
  { axes
    total := n.settings.weights.combine (axes.map AxisScore.quality)
    acceptable :=
      !(accepted.zipWith (H := fun _ => Bool) AxisScore.rejects axes).toList.any id }

end ContentNegotiation
