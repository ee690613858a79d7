/-!
# Binary floating-point formats

A format lists its non-negative values in increasing order. The *rank* of a value is its place in
that list, which is also its bit pattern without the sign: rank 0 is zero, the ranks of one binade
are consecutive, and the last rank stands for infinity. Each finite value is a whole number of
*units*, the smallest positive value of the format.

Rounding picks the nearest rank, and of two ranks equally near the even one. Infinity takes part
with the units that the next binade would start at, so that overflow needs no rule of its own.

Principal statements: `Format.nearest_le` (rounding ends at infinity) and `Format.nearest_units`
(every value of the format is nearest to itself).
-/

namespace ContentNegotiation

/-- What distinguishes one binary floating-point format from another. -/
structure Format where
  /-- Bits of a significand after its leading one. -/
  fractionBits : Nat
  /-- The exponent code that is kept for infinity. -/
  topExponent : Nat
  /-- One unit is `2 ^ -scale`. -/
  scale : Nat
  deriving DecidableEq, Repr

namespace Format

/-- The 32-bit format. -/
def single : Format := ⟨23, 255, 149⟩

/-- The 64-bit format. -/
def double : Format := ⟨52, 2047, 1074⟩

/-- The number of values in one binade. -/
def binadeSize (f : Format) : Nat := Nat.pow 2 f.fractionBits

/-- The rank of infinity, the largest one. -/
def infinityRank (f : Format) : Nat := f.topExponent * f.binadeSize

/-- The units of the value with the given rank. Below the second binade ranks and units agree;
from there on every binade doubles the distance between neighbours. -/
def units (f : Format) (rank : Nat) : Nat :=
  if rank < f.binadeSize then rank
  else (f.binadeSize + rank % f.binadeSize) * Nat.pow 2 (rank / f.binadeSize - 1)

/-- The whole number nearest to `n / d`, the even one of two equally near. -/
def divideToEven (n d : Nat) : Nat :=
  let q := n / d
  let r := n % d
  if 2 * r < d then q
  else if d < 2 * r then q + 1
  else if q % 2 = 0 then q else q + 1

/-- How often the distance between neighbours has doubled at `u` units. -/
def doublings (f : Format) (u : Nat) : Nat :=
  u.log2 - f.fractionBits

/-- The rank nearest to `n / d` units, the even one of two equally near. -/
def nearest (f : Format) (n d : Nat) : Nat :=
  let k := f.doublings (n / d)
  min f.infinityRank (k * f.binadeSize + divideToEven n (d * Nat.pow 2 k))

theorem nearest_le (f : Format) (n d : Nat) : f.nearest n d ≤ f.infinityRank :=
  Nat.min_le_left _ _

theorem binadeSize_pos (f : Format) : 0 < f.binadeSize :=
  Nat.two_pow_pos _

@[simp] theorem units_zero (f : Format) : f.units 0 = 0 := by
  simp [units, f.binadeSize_pos]

@[simp] theorem divideToEven_zero (d : Nat) : divideToEven 0 d = 0 := by
  simp [divideToEven]

@[simp] theorem nearest_zero (f : Format) (d : Nat) : f.nearest 0 d = 0 := by
  simp [nearest, doublings]

theorem divideToEven_mul_right (a d : Nat) (h : 0 < d) : divideToEven (a * d) d = a := by
  simp [divideToEven, Nat.mul_div_cancel _ h, h]

theorem units_of_lt {f : Format} {r : Nat} (h : r < f.binadeSize) : f.units r = r := by
  simp [units, h]

/-- The value at place `s` of the binade after `e` doublings. -/
theorem units_binade (f : Format) (e : Nat) {s : Nat} (h : s < f.binadeSize) :
    f.units ((e + 1) * f.binadeSize + s) = (f.binadeSize + s) * Nat.pow 2 e := by
  have hpos := f.binadeSize_pos
  have hdiv : ((e + 1) * f.binadeSize + s) / f.binadeSize = e + 1 := by
    rw [Nat.mul_comm, Nat.mul_add_div hpos, Nat.div_eq_of_lt h, Nat.add_zero]
  have hmod : ((e + 1) * f.binadeSize + s) % f.binadeSize = s := by
    rw [Nat.mul_comm, Nat.mul_add_mod, Nat.mod_eq_of_lt h]
  have hle : ¬ (e + 1) * f.binadeSize + s < f.binadeSize := by
    rw [Nat.add_mul]; omega
  simp [units, hdiv, hmod, hle]

theorem doublings_of_lt {f : Format} {u : Nat} (h : u < f.binadeSize) : f.doublings u = 0 := by
  by_cases hu : u = 0
  · simp [hu, doublings]
  · have := (Nat.log2_lt hu).2 h
    simp only [doublings]; omega

theorem doublings_binade (f : Format) (e : Nat) {s : Nat} (h : s < f.binadeSize) :
    f.doublings ((f.binadeSize + s) * Nat.pow 2 e) = e := by
  have hpos := f.binadeSize_pos
  have hpow : f.binadeSize * 2 ^ e = 2 ^ (f.fractionBits + e) := (Nat.pow_add ..).symm
  have hlog : ((f.binadeSize + s) * 2 ^ e).log2 = f.fractionBits + e := by
    rw [Nat.log2_eq_iff (Nat.mul_ne_zero (by omega) (Nat.ne_of_gt (Nat.two_pow_pos e))),
      Nat.pow_succ, ← hpow,
      Nat.mul_right_comm]
    exact ⟨Nat.mul_le_mul_right _ (Nat.le_add_right ..),
      Nat.mul_lt_mul_of_pos_right (by omega) (Nat.two_pow_pos e)⟩
  simp [doublings, hlog]

/-- A value of the format is nearest to itself. -/
theorem nearest_units (f : Format) {r d : Nat} (hr : r ≤ f.infinityRank) (hd : 0 < d) :
    f.nearest (f.units r * d) d = r := by
  have hpos := f.binadeSize_pos
  rw [nearest, Nat.mul_div_cancel _ hd]
  by_cases h : r < f.binadeSize
  · simp [units_of_lt h, doublings_of_lt h, divideToEven_mul_right _ _ hd, hr]
  · obtain ⟨e, he⟩ : ∃ e, r / f.binadeSize = e + 1 :=
      Nat.exists_eq_add_one.2 (Nat.div_pos (by omega) hpos)
    have hs := Nat.mod_lt r hpos
    have hsplit : r = (e + 1) * f.binadeSize + r % f.binadeSize := by
      rw [← he, Nat.mul_comm]; exact (Nat.div_add_mod ..).symm
    generalize r % f.binadeSize = s at hs hsplit
    subst hsplit
    rw [units_binade f e hs]
    simp only [doublings_binade f e hs]
    have hgap : 0 < d * Nat.pow 2 e := Nat.mul_pos hd (Nat.two_pow_pos e)
    rw [Nat.mul_right_comm, Nat.mul_assoc _ d, divideToEven_mul_right _ _ hgap, ← Nat.add_assoc,
      ← Nat.succ_mul]
    exact Nat.min_eq_right hr

end Format

end ContentNegotiation
