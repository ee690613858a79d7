import ContentNegotiation.Axis.PerAxis
import ContentNegotiation.Preference.Quality

/-!
# Preference lists

What a client accepts on one axis is a list of values with qualities, in the order stated and with
repetitions kept. An axis that is unset, or set to the empty list, states no constraint.
-/

namespace ContentNegotiation

/-- One accepted value with its quality (`QualityValue`). -/
structure Entry (α : Type) where
  value : α
  quality : Quality
  deriving DecidableEq, Repr

/-- The accepted values of one axis in stated order (`Preference`). -/
abbrev AcceptList (α : Type) := List (Entry α)

/-- Why a preference cannot be stated (`NegotiationError`). -/
inductive PreferenceError where
  /-- A quality outside of zero to one. -/
  | quality (value : Single)
  /-- A value that breaks the grammar of its axis. -/
  | value (axis : Axis) (text : Text)
  /-- A weight that is not a number. -/
  | weight (text : Text)
  deriving DecidableEq, Repr

namespace PreferenceError

/-- The message for text that cannot be read. -/
def unreadable (label text : Text) : Text :=
  "Invalid ".toList ++ label ++ ": '".toList ++ text ++ "'".toList

/-- The wording of each cause. -/
def message : PreferenceError → Text
  | quality v => "Invalid preference quality: ".toList ++ v.print ++
      " (expected a value between 0.0 and 1.0)".toList
  | value axis text => unreadable axis.label text
  | weight text => unreadable "quality".toList text

end PreferenceError

/-- Reads a value of an axis. -/
def readValue {α : Type} [AxisValue α] (t : Text) : Except PreferenceError α :=
  match AxisValue.read t with
  | some v => .ok v
  | none => .error (.value (AxisValue.axis α) t)

/-- Checks a stated quality. -/
def readQuality (x : Single) : Except PreferenceError Quality :=
  match Quality.ofSingle x with
  | some q => .ok q
  | none => .error (.quality x)

namespace Entry

variable {α : Type} [AxisValue α]

/-- The written form; the highest quality is left out (`QualityValue::fmt`). -/
def print (e : Entry α) : Text :=
  AxisValue.print e.value ++
    if e.quality.isHighest then [] else ";q=".toList ++ e.quality.print

end Entry

namespace AcceptList

variable {α : Type}

/-- Appends a value with the highest quality (`Preference::push`). -/
def push (l : AcceptList α) (v : α) : AcceptList α :=
  l ++ [⟨v, .highest⟩]

/-- Appends a value with a stated quality, which is checked (`Preference::add`). -/
def add (l : AcceptList α) (v : α) (quality : Single) : Except PreferenceError (AcceptList α) :=
  (readQuality quality).map fun q => l ++ [⟨v, q⟩]

/-- Some entry is not a wildcard (`has_concrete_entry`). Only such lists constrain what is
acceptable. -/
def hasConcreteEntry [AxisValue α] (l : AcceptList α) : Bool :=
  l.any fun e => !AxisValue.isWildcard e.value

/-- The written form of the whole list (`Preference::fmt`). -/
def print [AxisValue α] (l : AcceptList α) : Text :=
  Text.join ", ".toList (l.map Entry.print)

end AcceptList

/-- What a client accepts on each axis. -/
abbrev Preferences := PerAxis fun α => Option (AcceptList α)

/-- No axis is set. -/
def Preferences.unset : Preferences := ⟨none, none, none, none⟩

end ContentNegotiation
