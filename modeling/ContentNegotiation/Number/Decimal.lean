import ContentNegotiation.Number.Binary
import ContentNegotiation.Text.Basic

/-!
# Decimal numerals

A decimal is a sign, a whole significand and a power of ten. `Numeral.read` accepts an optional
sign followed by `inf`, `infinity` or `nan` in any case, or by digits with at most one point and an
optional exponent. `Decimal.toBinary` rounds the exact value once, directly to the wanted format.

Numerals far outside the range of the format are decided by comparing powers of two before any
power of ten is computed, so that the cost does not grow with the exponent.
-/

namespace ContentNegotiation

/-- `significand * 10 ^ exponent` with a sign. -/
structure Decimal where
  negative : Bool
  significand : Nat
  exponent : Int
  deriving DecidableEq, Repr

namespace Decimal

/-- The value of a decimal digit. -/
def digitValue (c : Char) : Nat :=
  c.toNat - '0'.toNat

/-- The number that a row of digits writes. -/
def natOfDigits (ds : Text) : Nat :=
  ds.foldl (fun n c => 10 * n + digitValue c) 0

/-- The decimal digits of a number, without leading zeros. -/
def digitsOfNat (n : Nat) : Text :=
  Nat.toDigits 10 n

/-- The magnitude nearest to `s * 10 ^ e`. -/
def magnitude (f : Format) (s : Nat) : Int → Magnitude f
  | .ofNat k =>
    if s = 0 then .zero
    else if f.topExponent ≤ k then .infinity
    else .nearest f (s * Nat.pow 10 k * Nat.pow 2 f.scale) 1
  | .negSucc k =>
    if s = 0 then .zero
    else if s.log2 + f.scale + 2 ≤ 3 * (k + 1) then .zero
    else .nearest f (s * Nat.pow 2 f.scale) (Nat.pow 10 (k + 1))

/-- The number of the format nearest to a decimal. -/
def toBinary (f : Format) (d : Decimal) : Binary f :=
  .number d.negative (magnitude f d.significand d.exponent)

/-- Splits off an optional sign; `true` means minus. -/
def splitSign : Text → Bool × Text
  | '-' :: t => (true, t)
  | '+' :: t => (false, t)
  | t => (false, t)

/-- Reads the exponent after its mark: an optional sign and at least one digit. -/
def readExponent (t : Text) : Option Int :=
  let (negative, ds) := splitSign t
  if ds.isEmpty || !ds.all Char.isDigit then none
  else some (if negative then -(natOfDigits ds : Int) else natOfDigits ds)

/-- Splits off the fraction digits after a point, if there is one. -/
def splitFraction : Text → Text × Text
  | '.' :: t => t.span Char.isDigit
  | t => ([], t)

/-- Reads digits with at most one point, at least one digit and an optional exponent. -/
def readUnsigned (t : Text) : Option (Nat × Int) :=
  let (whole, t) := t.span Char.isDigit
  let (fraction, t) := splitFraction t
  if whole.isEmpty && fraction.isEmpty then none
  else
    let shifted (e : Int) := (natOfDigits (whole ++ fraction), e - fraction.length)
    match t with
    | [] => some (shifted 0)
    | c :: t => if c = 'e' || c = 'E' then (readExponent t).map shifted else none

end Decimal

/-- What a numeral denotes before it is rounded to a format. -/
inductive Numeral where
  | nan
  | infinity (negative : Bool)
  | finite (value : Decimal)
  deriving DecidableEq, Repr

namespace Numeral

/-- Reads a numeral; the names of the special values are read in any case. -/
def read (t : Text) : Option Numeral :=
  let (negative, body) := Decimal.splitSign t
  let name := Text.lower body
  if name = "inf".toList || name = "infinity".toList then some (.infinity negative)
  else if name = "nan".toList then some .nan
  else (Decimal.readUnsigned body).map fun (s, e) => .finite ⟨negative, s, e⟩

/-- The number of the format nearest to a numeral. -/
def toBinary (f : Format) : Numeral → Binary f
  | nan => .nan
  | infinity negative => .number negative .infinity
  | finite d => d.toBinary f

end Numeral

/-- Reads a number of the format, correctly rounded. -/
def Binary.read (f : Format) (t : Text) : Option (Binary f) :=
  (Numeral.read t).map (Numeral.toBinary f)

end ContentNegotiation
