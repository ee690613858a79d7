import ContentNegotiation.Negotiation.Score

/-!
# Ranking and selection

Both look at the acceptable variants of a list and name them by position. `Negotiator.rank` sorts
them by total, best first, and keeps input order among equal totals. `Negotiator.select` picks one:
totals within a tolerance of the best so far tie, and among tied variants the first one with the
default language is taken, or else the first.
-/

namespace ContentNegotiation

/-- Totals closer than this, one millionth, are tied (`TIE_TOLERANCE`). -/
def tieTolerance : Single := Binary.ofRatio .single 1 1000000

/-- A variant of a list with its place and its score. -/
structure Ranked where
  position : Nat
  variant : Variant
  score : VariantScore

namespace Negotiator

/-- The acceptable variants in input order, each with its place and its score. -/
def candidates (n : Negotiator) (accepted : Preferences) (variants : List Variant) : List Ranked :=
  (variants.zipIdx.map fun (v, i) => ⟨i, v, n.score accepted v⟩).filter (·.score.acceptable)

/-- The acceptable variants, best first; equal totals keep their input order (`rank_variants`). -/
def rank (n : Negotiator) (accepted : Preferences) (variants : List Variant) : List Ranked :=
  (n.candidates accepted variants).mergeSort fun a b =>
    decide (b.score.total.orderKey ≤ a.score.total.orderKey)

/-- The best total so far with the candidates that tie with it. -/
structure Leaders where
  best : Single
  tied : List Ranked

/-- Before the first candidate the best total is below every total. -/
def Leaders.none : Leaders := ⟨.number true .infinity, []⟩

/-- A candidate beyond the tolerance starts anew, one within it joins the tie, any other is passed
over. -/
def Leaders.meet (l : Leaders) (r : Ranked) : Leaders :=
  if (l.best + tieTolerance).less r.score.total then ⟨r.score.total, [r]⟩
  else if (r.score.total - l.best).abs.atMost tieTolerance then { l with tied := l.tied ++ [r] }
  else l

/-- The candidates that tie for the best total, in input order. -/
def tied (n : Negotiator) (accepted : Preferences) (variants : List Variant) : List Ranked :=
  ((n.candidates accepted variants).foldl Leaders.meet Leaders.none).tied

/-- The variant has a language that the given one matches. -/
def speaks (language : LanguageTag) (r : Ranked) : Bool :=
  match r.variant.values.language with
  | some l => (language.specificity l).isSome
  | none => false

/-- The first of a list in the given language, or else its first. -/
def preferLanguage (language : Option LanguageTag) (rs : List Ranked) : Option Ranked :=
  (language.bind fun l => rs.find? (speaks l)).or rs.head?

/-- The variant that fits best; `none` if none is acceptable (`select_best_variant`). A language
given here goes before the configured one. -/
def select (n : Negotiator) (accepted : Preferences) (variants : List Variant)
    (language : Option LanguageTag) : Option Ranked :=
  preferLanguage (language.or n.settings.defaultLanguage) (n.tied accepted variants)

end Negotiator

end ContentNegotiation
