import ContentNegotiation.Axis.MediaType
import ContentNegotiation.Axis.LanguageTag
import ContentNegotiation.Axis.Name

/-!
# One datum per axis

`PerAxis F` holds an `F` of the value type of each axis: optional values for a representation,
optional preference lists for a client, a weight or a score for each axis.
-/

namespace ContentNegotiation

/-- The type of the values on an axis. -/
abbrev Axis.Value : Axis → Type
  | mediaType => MediaType
  | language => LanguageTag
  | charset => Charset
  | coding => ContentCoding

instance (a : Axis) : AxisValue a.Value :=
  match a with
  | .mediaType => inferInstanceAs (AxisValue MediaType)
  | .language => inferInstanceAs (AxisValue LanguageTag)
  | .charset => inferInstanceAs (AxisValue Charset)
  | .coding => inferInstanceAs (AxisValue ContentCoding)

/-- An `F` of the value type of each axis. -/
structure PerAxis (F : Type → Type) where
  mediaType : F MediaType
  language : F LanguageTag
  charset : F Charset
  coding : F ContentCoding

namespace PerAxis

variable {F G H : Type → Type} {β : Type}

/-- Applies a function on every axis. -/
def map (g : {α : Type} → [AxisValue α] → F α → G α) (p : PerAxis F) : PerAxis G :=
  ⟨g p.mediaType, g p.language, g p.charset, g p.coding⟩

/-- Combines two families axis by axis. -/
def zipWith (g : {α : Type} → [AxisValue α] → F α → G α → H α) (p : PerAxis F) (q : PerAxis G) :
    PerAxis H :=
  ⟨g p.mediaType q.mediaType, g p.language q.language, g p.charset q.charset,
    g p.coding q.coding⟩

/-- The datum of one axis. -/
def get (p : PerAxis F) : (a : Axis) → F a.Value
  | .mediaType => p.mediaType
  | .language => p.language
  | .charset => p.charset
  | .coding => p.coding

/-- Replaces the datum of one axis. -/
def set (p : PerAxis F) : (a : Axis) → F a.Value → PerAxis F
  | .mediaType, x => { p with mediaType := x }
  | .language, x => { p with language := x }
  | .charset, x => { p with charset := x }
  | .coding, x => { p with coding := x }

@[simp] theorem get_set_self (p : PerAxis F) (a : Axis) (x : F a.Value) : (p.set a x).get a = x := by
  cases a <;> rfl

theorem get_set_of_ne (p : PerAxis F) {a b : Axis} (h : b ≠ a) (x : F a.Value) :
    (p.set a x).get b = p.get b := by
  cases a <;> cases b <;> first | rfl | exact absurd rfl h

/-- Where the datum of one axis is replaced, it is the only one to look at anew. -/
theorem forall_get_set {P : (a : Axis) → F a.Value → Prop} {p : PerAxis F} {a : Axis}
    {x : F a.Value} (ha : P a x) (h : ∀ b, b ≠ a → P b (p.get b)) (b : Axis) :
    P b ((p.set a x).get b) := by
  by_cases hb : b = a
  · subst hb
    rw [get_set_self]
    exact ha
  · rw [get_set_of_ne p hb]
    exact h b hb

/-- The data in axis order: media type, language, character set, content coding. -/
def toList (p : PerAxis fun _ => β) : List β :=
  [p.mediaType, p.language, p.charset, p.coding]

end PerAxis

end ContentNegotiation
