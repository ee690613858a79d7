import ContentNegotiation.Preference.Basic

/-!
# Reading preference lists from header fields

The four accept fields share one grammar: elements separated by commas, each a value and its
parameters separated by semicolons. The parameter `q` states the quality. Parameters before it
belong to the value, those after it are extensions and are ignored.
-/

namespace ContentNegotiation

namespace AcceptList

/-- The weight that a parameter states, if its name is `q` in either case. -/
def weightOf (parameter : Text) : Option Text :=
  match Text.splitFirst '=' parameter with
  | some (name, weight) =>
    if Text.lower (Text.trim name) = ['q'] then some (Text.trim weight) else none
  | none => none

/-- The parameters before the first weight, and that weight. -/
def splitAtWeight : List Text → List Text × Option Text
  | [] => ([], none)
  | p :: ps =>
    match weightOf p with
    | some w => ([], some w)
    | none => (p :: (splitAtWeight ps).1, (splitAtWeight ps).2)

/-- The quality that a weight states; the highest where no weight is given. -/
def readWeight : Option Text → Except PreferenceError Quality
  | none => .ok .highest
  | some w =>
    match Binary.read .single w with
    | some x => readQuality x
    | none => .error (.weight w)

variable {α : Type} [AxisValue α]

/-- Reads one element: the weight is judged before the value (`parse_element`). -/
def readEntry (element : Text) : Except PreferenceError (Entry α) := do
  let (first, parameters) := Text.pieces ';' element
  let (own, weight) := splitAtWeight (parameters.map Text.trim)
  let quality ← readWeight weight
  let value ← readValue (Text.join [';'] (Text.trim first :: own))
  return ⟨value, quality⟩

/-- The elements of a field: blank ones are left out. -/
def elements (field : Text) : List Text :=
  ((Text.splitAll ',' field).map Text.trim).filter (!·.isEmpty)

/-- Reads a field; the first element that fails decides the error (`parse_header`). -/
def read (field : Text) : Except PreferenceError (AcceptList α) :=
  (elements field).mapM readEntry

end AcceptList

end ContentNegotiation
