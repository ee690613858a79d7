import ContentNegotiation.Axis.PerAxis

/-!
# Variants

A variant is one concrete representation of a resource. It has at most one value per axis, and
every value it has obeys the grammar of its axis and holds no wildcard; `Variant.ofValues` is the
only way to build one and says which value is at fault.
-/

namespace ContentNegotiation

/-- At most one value for each axis. -/
abbrev AxisValues := PerAxis Option

/-- Why values do not make a variant. -/
inductive VariantError where
  /-- The value breaks the grammar of its axis. -/
  | malformed (axis : Axis) (text : Text)
  /-- The value contains a wildcard. -/
  | notConcrete (axis : Axis) (text : Text)
  deriving DecidableEq, Repr

/-- The wording of each cause. -/
def VariantError.message : VariantError → Text
  | malformed axis text => fault axis text " is malformed".toList
  | notConcrete axis text => fault axis text " is not a concrete value".toList
where
  fault (axis : Axis) (text what : Text) : Text :=
    "Invalid variant: ".toList ++ axis.label ++ " '".toList ++ text ++ '\'' :: what

namespace AxisValues

/-- No axis has a value. -/
def unset : AxisValues := ⟨none, none, none, none⟩

/-- What is wrong with the value of one axis (`check_concrete`). -/
def fault {α : Type} [AxisValue α] : Option α → Option VariantError
  | none => none
  | some v =>
    if !AxisValue.isWellFormed v then some (.malformed (AxisValue.axis α) (AxisValue.print v))
    else if !AxisValue.isConcrete v then some (.notConcrete (AxisValue.axis α) (AxisValue.print v))
    else none

/-- The first fault in axis order. -/
def firstFault (v : AxisValues) : Option VariantError :=
  (PerAxis.map (G := fun _ => Option VariantError) fault v).toList.findSome? id

end AxisValues

/-- Values of which none is at fault. -/
structure Variant where
  values : AxisValues
  sound : values.firstFault = none

namespace Variant

/-- Checks the values (`VariantBuilder::build`). -/
def ofValues (v : AxisValues) : Except VariantError Variant :=
  match h : v.firstFault with
  | some e => .error e
  | none => .ok ⟨v, h⟩

/-- The written form of the value of one axis, or a hyphen. -/
def printValue {α : Type} [AxisValue α] : Option α → Text
  | some v => AxisValue.print v
  | none => ['-']

/-- The written form: the four values between brackets (`Variant::fmt`). -/
def print (v : Variant) : Text :=
  '[' :: Text.join " | ".toList (PerAxis.map (G := fun _ => Text) printValue v.values).toList
    ++ [']']

/-- No axis has a value. -/
def isUnset (v : Variant) : Bool :=
  v.values.mediaType.isNone && v.values.language.isNone && v.values.charset.isNone &&
    v.values.coding.isNone

end Variant

end ContentNegotiation
