import ContentNegotiation.Number.Decimal

/-!
# The shortest decimal of a number

A number is written with the fewest significant digits that read back as the same number, and
among those with the digits nearest to its value; of two equally near the larger is taken. The
digits are laid out positionally, never with an exponent.

The search walks decimal grids from coarse to fine. On each grid only the two neighbours of the
value are tried, and the finest grid holds the value itself, so the search always ends with a
decimal that reads back: `Magnitude.magnitude_shortest`.
-/

namespace ContentNegotiation

namespace Magnitude

variable {f : Format}

/-- The decimal reads back as this magnitude. -/
def readsBack (m : Magnitude f) (s : Nat) (e : Int) : Bool :=
  Decimal.magnitude f s e == m

/-- `m / 10 ^ e` as a fraction. -/
def overPowerOfTen (m : Magnitude f) : Int → Nat × Nat
  | .ofNat k => (m.units, Nat.pow 2 f.scale * Nat.pow 10 k)
  | .negSucc k => (m.units * Nat.pow 10 (k + 1), Nat.pow 2 f.scale)

/-- The neighbour of the value on the grid of `10 ^ e` that reads back, the nearer one if both do,
the upper one if they are equally near. -/
def onGrid (m : Magnitude f) (e : Int) : Option Nat :=
  let (n, d) := m.overPowerOfTen e
  let below := n / d
  match m.readsBack below e, m.readsBack (below + 1) e with
  | true, true => some (if 2 * (n % d) < d then below else below + 1)
  | true, false => some below
  | false, true => some (below + 1)
  | false, false => none

/-- The first decimal that reads back, on the grids from `10 ^ (k - scale)` down; the finest grid
`10 ^ -scale` holds the value exactly. -/
def searchGrids (m : Magnitude f) : Nat → Nat × Int
  | 0 => (m.units * Nat.pow 5 f.scale, -f.scale)
  | k + 1 =>
    let e : Int := (k + 1 : Nat) - (f.scale : Int)
    match m.onGrid e with
    | some s => (s, e)
    | none => searchGrids m k

/-- How many digits the whole part of the value has; a power of ten with more zeros than that is
more than twice the value. -/
def wholeDigits (m : Magnitude f) : Nat :=
  (Decimal.digitsOfNat (m.units / Nat.pow 2 f.scale)).length

/-- The shortest decimal of a finite magnitude, as a significand and a power of ten. -/
def shortest (m : Magnitude f) : Nat × Int :=
  if m.rank = 0 then (0, 0) else m.searchGrids (m.wholeDigits + f.scale)

theorem magnitude_of_onGrid {m : Magnitude f} {e : Int} {s : Nat} (h : m.onGrid e = some s) :
    Decimal.magnitude f s e = m := by
  simp only [onGrid, readsBack] at h
  split at h
  · split at h <;> simp_all
  all_goals simp_all

/-- The finest grid holds the value itself. -/
theorem magnitude_finestGrid {m : Magnitude f} (h : m.rank ≠ 0) (hfin : m.isFinite = true) :
    Decimal.magnitude f (m.units * Nat.pow 5 f.scale) (-f.scale) = m := by
  have hu := units_pos h
  have hs : m.units * 5 ^ f.scale ≠ 0 :=
    Nat.mul_ne_zero (by omega) (Nat.ne_of_gt (Nat.pow_pos (by omega)))
  have hten : m.units * 5 ^ f.scale * 2 ^ f.scale = m.units * 10 ^ f.scale := by
    rw [Nat.mul_assoc, ← Nat.mul_pow]
  cases hsc : f.scale with
  | zero =>
    have htop : f.topExponent ≠ 0 := by
      intro h0
      simp [isFinite, Format.infinityRank, h0] at hfin
    have := nearest_units m Nat.one_pos
    simp_all [Decimal.magnitude]
  | succ j =>
    have hlog : 2 * f.scale ≤ (m.units * 5 ^ f.scale).log2 := by
      rw [Nat.le_log2 hs, Nat.pow_mul]
      exact Nat.le_trans (Nat.pow_le_pow_left (by omega) _) (Nat.le_mul_of_pos_left _ hu)
    have hneg : -((j + 1 : Nat) : Int) = Int.negSucc j := rfl
    rw [hsc] at hs hlog hten
    rw [hneg]
    simp only [Decimal.magnitude, Nat.pow_eq, hs, ↓reduceIte, hsc, hten]
    rw [if_neg (by omega)]
    exact nearest_units m (Nat.pow_pos (by omega))

theorem magnitude_searchGrids {m : Magnitude f} (h : m.rank ≠ 0) (hfin : m.isFinite = true)
    (k : Nat) : Decimal.magnitude f (m.searchGrids k).1 (m.searchGrids k).2 = m := by
  fun_induction searchGrids m k with
  | case1 => exact magnitude_finestGrid h hfin
  | case2 k e s hs => exact magnitude_of_onGrid hs
  | case3 k e hs ih => exact ih

/-- The shortest decimal of a finite magnitude reads back as that magnitude. -/
theorem magnitude_shortest (m : Magnitude f) (hfin : m.isFinite = true) :
    Decimal.magnitude f m.shortest.1 m.shortest.2 = m := by
  rw [shortest]
  split
  · next h =>
    obtain ⟨r, hr⟩ := m
    subst h
    rfl
  · next h => exact magnitude_searchGrids h hfin _

/-- Digits with the decimal point `places` digits from the right; at least one digit stands before
the point. -/
def pointAt (places : Nat) (digits : Text) : Text :=
  let padded := List.replicate (places + 1 - digits.length) '0' ++ digits
  padded.take (padded.length - places) ++ '.' :: padded.drop (padded.length - places)

/-- A significand and a power of ten, laid out without an exponent. -/
def positional (s : Nat) : Int → Text
  | .ofNat k => Decimal.digitsOfNat s ++ List.replicate k '0'
  | .negSucc k => pointAt (k + 1) (Decimal.digitsOfNat s)

/-- A magnitude as it is printed. -/
def print (m : Magnitude f) : Text :=
  if m.isFinite then positional m.shortest.1 m.shortest.2 else "inf".toList

end Magnitude

/-- A number as it is printed: a minus sign also stands before zero. -/
def Binary.print {f : Format} : Binary f → Text
  | .nan => "NaN".toList
  | .number true m => '-' :: m.print
  | .number false m => m.print

end ContentNegotiation
