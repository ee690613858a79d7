import ContentNegotiation.Number.Format

/-!
# Binary floating-point numbers

A number of a format is not-a-number, or a sign with a magnitude of that format. Arithmetic is
exact arithmetic on units followed by one rounding, so each operation is correctly rounded by
construction.

Comparison is numeric (the two zeros are equal, not-a-number compares with nothing);
`Binary.orderKey` gives the total order in which `-0` lies below `0`.

Principal statement: `Magnitude.nearest_units` (rounding a magnitude's own value changes nothing).
-/

namespace ContentNegotiation

/-- A magnitude of the format: one of its ranks, infinity included. -/
structure Magnitude (f : Format) where
  rank : Nat
  rank_le : rank ≤ f.infinityRank
  deriving DecidableEq, Repr

namespace Magnitude

variable {f : Format}

/-- The magnitude nearest to `n / d` units. -/
def nearest (f : Format) (n d : Nat) : Magnitude f :=
  ⟨f.nearest n d, f.nearest_le n d⟩

/-- The magnitude in units; infinity counts as the start of the binade it replaces. -/
def units (m : Magnitude f) : Nat :=
  f.units m.rank

/-- The magnitude zero. -/
def zero : Magnitude f := ⟨0, Nat.zero_le _⟩

/-- The infinite magnitude. -/
def infinity : Magnitude f := ⟨f.infinityRank, Nat.le_refl _⟩

/-- Every magnitude but infinity is finite. -/
def isFinite (m : Magnitude f) : Bool :=
  m.rank < f.infinityRank

theorem nearest_units (m : Magnitude f) {d : Nat} (hd : 0 < d) : nearest f (m.units * d) d = m := by
  obtain ⟨r, hr⟩ := m
  simp [nearest, units, Format.nearest_units f hr hd]

theorem units_pos {m : Magnitude f} (h : m.rank ≠ 0) : 0 < m.units := by
  have := f.binadeSize_pos
  simp only [units, Format.units]
  split
  · omega
  · exact Nat.mul_pos (by omega) (Nat.two_pow_pos _)

end Magnitude

/-- A floating-point number of the given format. -/
inductive Binary (f : Format) where
  /-- Not a number. -/
  | nan
  /-- A signed magnitude. -/
  | number (negative : Bool) (magnitude : Magnitude f)
  deriving DecidableEq, Repr

/-- A 32-bit floating-point number. -/
abbrev Single := Binary .single

/-- A 64-bit floating-point number. -/
abbrev Double := Binary .double

namespace Binary

variable {f : Format}

/-- Positive zero. -/
def zero : Binary f := .number false .zero

/-- Positive infinity. -/
def infinity : Binary f := .number false .infinity

/-- The number nearest to `n / d`. -/
def ofRatio (f : Format) (n d : Nat) : Binary f :=
  .number false (.nearest f (n * Nat.pow 2 f.scale) d)

/-- The number nearest to `n`. -/
def ofNat (f : Format) (n : Nat) : Binary f :=
  ofRatio f n 1

/-- The number nearest to `n`; an integer zero is the positive zero. -/
def ofInt (f : Format) (n : Int) : Binary f :=
  .number (decide (n < 0)) (.nearest f (n.natAbs * Nat.pow 2 f.scale) 1)

/-- The number one. -/
def one : Binary f := ofNat f 1

/-- Neither infinite nor not-a-number. -/
def isFinite : Binary f → Bool
  | nan => false
  | number _ m => m.isFinite

/-- The value in units, with its sign; `none` for not-a-number. -/
def signedUnits : Binary f → Option Int
  | nan => none
  | number negative m => some (if negative then -(m.units : Int) else m.units)

/-- Numerically smaller. -/
def less (x y : Binary f) : Bool :=
  match x.signedUnits, y.signedUnits with
  | some u, some v => u < v
  | _, _ => false

/-- Numerically equal: the zeros are one value, not-a-number is none. -/
def sameValue (x y : Binary f) : Bool :=
  match x.signedUnits, y.signedUnits with
  | some u, some v => u == v
  | _, _ => false

/-- Numerically smaller or equal. -/
def atMost (x y : Binary f) : Bool :=
  match x.signedUnits, y.signedUnits with
  | some u, some v => u ≤ v
  | _, _ => false

/-- The same magnitude with the other sign. -/
def negate : Binary f → Binary f
  | nan => nan
  | number negative m => number (!negative) m

/-- The magnitude as a number. -/
def abs : Binary f → Binary f
  | nan => nan
  | number _ m => number false m

/-- The number nearest to a whole number of units over `d`. A result of zero takes the sign of
`zeroSign`. -/
def roundUnits (f : Format) (n : Int) (d : Nat) (zeroSign : Bool) : Binary f :=
  .number (if n = 0 then zeroSign else decide (n < 0)) (.nearest f n.natAbs d)

/-- The rounded sum. Opposite infinities have none, and a sum of zero is negative only if both
terms are. -/
def add : Binary f → Binary f → Binary f
  | number s m, number t n =>
    match m.isFinite, n.isFinite with
    | true, true =>
      let signed (negative : Bool) (u : Nat) : Int := if negative then -(u : Int) else u
      roundUnits f (signed s m.units + signed t n.units) 1 (s && t)
    | true, false => number t n
    | false, true => number s m
    | false, false => if s = t then number s m else nan
  | _, _ => nan

/-- The rounded difference. -/
def sub (x y : Binary f) : Binary f :=
  x.add y.negate

/-- The rounded product. Zero times infinity has none. -/
def mul : Binary f → Binary f → Binary f
  | number s m, number t n =>
    let sign := s != t
    if m.isFinite && n.isFinite then
      number sign (.nearest f (m.units * n.units) (Nat.pow 2 f.scale))
    else if m.rank = 0 || n.rank = 0 then nan
    else number sign .infinity
  | _, _ => nan

instance : Add (Binary f) := ⟨add⟩
instance : Sub (Binary f) := ⟨sub⟩
instance : Mul (Binary f) := ⟨mul⟩

/-- The nearest number of another format. -/
def convert (g : Format) : Binary f → Binary g
  | nan => nan
  | number s m =>
    if m.isFinite then number s (.nearest g (m.units * Nat.pow 2 g.scale) (Nat.pow 2 f.scale))
    else number s .infinity

/-- The bit pattern: the sign above the rank. Not-a-number has many, this is the quiet positive
one. -/
def toBits : Binary f → Nat
  | nan => f.infinityRank + f.binadeSize / 2
  | number negative m => (if negative then f.infinityRank + f.binadeSize else 0) + m.rank

/-- The place in the total order: negative numbers from the largest magnitude down, then positive
ones up from zero, then not-a-number. -/
def orderKey : Binary f → Int
  | nan => f.infinityRank + 1
  | number true m => -(m.rank : Int) - 1
  | number false m => m.rank

end Binary

end ContentNegotiation
