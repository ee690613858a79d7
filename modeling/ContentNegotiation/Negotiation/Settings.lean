import ContentNegotiation.Axis.PerAxis
import ContentNegotiation.Number.Shortest

/-!
# Weights and settings of the negotiation

The scores of the four axes are combined by weights. By default the language counts most, then the
media type, and character set and coding count least. A negotiator is built from settings whose
weights are finite and not negative and whose default language, if any, is well formed.
-/

namespace ContentNegotiation

/-- One weight per axis (`AxisWeights`). -/
abbrev Weights := PerAxis fun _ => Single

namespace Weights

/-- Three for the media type, four for the language, one for each of the others
(`AxisWeights::default`). -/
def standard : Weights := ⟨Binary.ofNat _ 3, Binary.ofNat _ 4, Binary.ofNat _ 1, Binary.ofNat _ 1⟩

/-- The weighted sum of four qualities, added from left to right with a rounding after each step
(`AxisWeights::combine`). -/
def combine (w : Weights) (q : PerAxis fun _ => Single) : Single :=
  w.mediaType * q.mediaType + w.language * q.language + w.charset * q.charset + w.coding * q.coding

/-- A weight that can be used: finite, and not below zero. -/
def usable (x : Single) : Bool :=
  x.isFinite && !x.less Binary.zero

end Weights

/-- Why settings cannot be used. -/
inductive SettingsError where
  /-- A weight that is infinite, not a number or below zero. -/
  | weight (axis : Axis) (value : Single)
  /-- A default language that breaks the grammar of tags. -/
  | defaultLanguage (text : Text)
  deriving DecidableEq, Repr

/-- The wording of each cause. -/
def SettingsError.message : SettingsError → Text
  | weight axis value => "Invalid settings: weight '".toList ++ axis.key ++
      "' must be a finite, non-negative number (got ".toList ++ value.print ++ ")".toList
  | defaultLanguage text =>
      "Invalid settings: default language '".toList ++ text ++ "' is malformed".toList

/-- Settings of the negotiation, not yet checked (`NegotiationSettings`). -/
structure Settings where
  weights : Weights
  /-- The language preferred among tied variants when the caller names none. -/
  defaultLanguage : Option LanguageTag

namespace Settings

/-- The settings that hold where nothing is configured. -/
def standard : Settings := ⟨Weights.standard, none⟩

/-- The first weight, in axis order, that cannot be used (`AxisWeights::validate`). -/
def weightFault (w : Weights) : Option SettingsError :=
  (PerAxis.toList ⟨(Axis.mediaType, w.mediaType), (.language, w.language), (.charset, w.charset),
    (.coding, w.coding)⟩).findSome? fun (axis, x) =>
      if Weights.usable x then none else some (.weight axis x)

/-- A default language that breaks the grammar of tags. -/
def languageFault : Option LanguageTag → Option SettingsError
  | some l => if l.isWellFormed then none else some (.defaultLanguage l.print)
  | none => none

/-- The first fault: weights are judged before the default language
(`NegotiationSettings::validate`). -/
def firstFault (s : Settings) : Option SettingsError :=
  (weightFault s.weights).or (languageFault s.defaultLanguage)

end Settings

/-- Settings of which none is at fault (`ContentNegotiator`). -/
structure Negotiator where
  settings : Settings
  sound : settings.firstFault = none

namespace Negotiator

/-- Checks the settings (`ContentNegotiator::new`). -/
def ofSettings (s : Settings) : Except SettingsError Negotiator :=
  match h : s.firstFault with
  | some e => .error e
  | none => .ok ⟨s, h⟩

/-- The negotiator with the standard settings. -/
def standard : Negotiator := ⟨Settings.standard, by decide⟩

end Negotiator

end ContentNegotiation
