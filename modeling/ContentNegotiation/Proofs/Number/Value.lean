import ContentNegotiation.Number.Binary
import ContentNegotiation.Proofs.Number.Rounding
import Mathlib.Algebra.Order.Field.Basic
import Mathlib.Algebra.Order.Ring.Rat
import Mathlib.Data.Rat.Defs
import Mathlib.Tactic.Positivity

/-!
# Exact values of floating-point numbers

`Binary.exact` is the value of a number in units, with its sign, and `Binary.value` the same as a
rational number.  Comparisons are comparisons of exact values, and a sum or difference is the exact
one after one rounding, `Format.roundSigned`.

Principal results: `Format.roundSigned_mono` and `Format.natAbs_roundSigned_sub_le` (signed rounding
keeps the order and picks a nearest value), `Binary.exact_add` and `Binary.exact_sub` (what the
operations round), `Binary.orderKey_lt_of_exact_lt` (the total order refines the values), and
`Binary.NonNegative.add` and `Binary.NonNegative.mul` (sums and products stay at or above zero).
-/

namespace ContentNegotiation

namespace Format

/-- A whole number of units, rounded with its sign. -/
def roundSigned (f : Format) (n : Int) : Int :=
  if n < 0 then -(f.units (f.nearest n.natAbs 1) : Int) else f.units (f.nearest n.natAbs 1)

@[simp] theorem roundSigned_zero (f : Format) : f.roundSigned 0 = 0 := by
  simp [roundSigned]

/-- **Signed rounding keeps the order.** -/
theorem roundSigned_mono (f : Format) {a b : Int} (h : a ≤ b) :
    f.roundSigned a ≤ f.roundSigned b := by
  have hmono : ∀ {m n : Nat}, m ≤ n → f.units (f.nearest m 1) ≤ f.units (f.nearest n 1) :=
    fun hmn => f.units_strictMono.monotone (f.nearest_mono Nat.one_pos hmn)
  simp only [roundSigned]
  split
  · rename_i ha
    split
    · rename_i hb
      have := hmono (show b.natAbs ≤ a.natAbs by omega)
      omega
    · omega
  · rename_i ha
    rw [if_neg (by omega)]
    have := hmono (show a.natAbs ≤ b.natAbs by omega)
    omega

/-- **Signed rounding picks a nearest value**: neither a rank nor its negation is nearer. -/
theorem natAbs_roundSigned_sub_le (f : Format) (n : Int) {u : Int} {r : Nat}
    (hr : r ≤ f.infinityRank) (hu : u = f.units r ∨ u = -(f.units r : Int)) :
    (f.roundSigned n - n).natAbs ≤ (u - n).natAbs := by
  have h := f.dist_nearest_le (n := n.natAbs) Nat.one_pos hr
  simp only [Nat.mul_one, Nat.dist] at h
  simp only [roundSigned]
  split <;> omega

end Format

namespace Magnitude

variable {f : Format} {m n : Magnitude f}

theorem eq_of_units_eq (h : m.units = n.units) : m = n := by
  have hrank := f.units_strictMono.injective h
  obtain ⟨r, hr⟩ := m
  cases hrank
  rfl

theorem eq_infinity_of_not_isFinite (h : m.isFinite = false) : m = infinity := by
  obtain ⟨rank, hle⟩ := m
  simp only [isFinite, decide_eq_false_iff_not] at h
  simp only [infinity, mk.injEq]
  omega

end Magnitude

namespace Binary

variable {f : Format}

/-- The value in units with its sign; infinity counts as the start of the binade it replaces. -/
def exact : Binary f → Int
  | nan => 0
  | number negative m => if negative then -(m.units : Int) else m.units

/-- The value as a rational number. -/
def value (x : Binary f) : ℚ := x.exact / 2 ^ f.scale

theorem ne_nan_of_isFinite {x : Binary f} (h : x.isFinite = true) : x ≠ nan := by
  rintro rfl
  cases h

/-- The exact value is that of a rank, up to the sign. -/
theorem exact_eq_units (x : Binary f) :
    ∃ r ≤ f.infinityRank, x.exact = f.units r ∨ x.exact = -(f.units r : Int) := by
  cases x with
  | nan => exact ⟨0, Nat.zero_le _, Or.inl (by simp [exact])⟩
  | number s m =>
      refine ⟨m.rank, m.rank_le, ?_⟩
      cases s with
      | false => exact Or.inl rfl
      | true => exact Or.inr rfl

/-- Finite values lie within the value of infinity. -/
theorem natAbs_exact_lt {x : Binary f} (h : x.isFinite = true) :
    x.exact.natAbs < f.units f.infinityRank := by
  cases x with
  | nan => cases h
  | number s m =>
      have hlt := f.units_strictMono (of_decide_eq_true h)
      have hm : m.units = f.units m.rank := rfl
      simp only [exact]
      split <;> omega

/-- A value of the format is rounded to itself. -/
theorem roundSigned_exact (x : Binary f) : f.roundSigned x.exact = x.exact := by
  obtain ⟨r, hr, hu⟩ := x.exact_eq_units
  have h := f.natAbs_roundSigned_sub_le x.exact hr hu
  omega

/-! ## Comparison -/

theorem less_iff {x y : Binary f} (hx : x ≠ nan) (hy : y ≠ nan) :
    x.less y = true ↔ x.exact < y.exact := by
  cases x with
  | nan => exact absurd rfl hx
  | number s m =>
      cases y with
      | nan => exact absurd rfl hy
      | number t n => simp [less, signedUnits, exact]

theorem atMost_iff {x y : Binary f} (hx : x ≠ nan) (hy : y ≠ nan) :
    x.atMost y = true ↔ x.exact ≤ y.exact := by
  cases x with
  | nan => exact absurd rfl hx
  | number s m =>
      cases y with
      | nan => exact absurd rfl hy
      | number t n => simp [atMost, signedUnits, exact]

theorem sameValue_iff {x y : Binary f} (hx : x ≠ nan) (hy : y ≠ nan) :
    x.sameValue y = true ↔ x.exact = y.exact := by
  cases x with
  | nan => exact absurd rfl hx
  | number s m =>
      cases y with
      | nan => exact absurd rfl hy
      | number t n => simp [sameValue, signedUnits, exact]

/-- **The total order refines the order of the values.** -/
theorem orderKey_lt_of_exact_lt {x y : Binary f} (hx : x ≠ nan) (hy : y ≠ nan)
    (h : x.exact < y.exact) : x.orderKey < y.orderKey := by
  cases x with
  | nan => exact absurd rfl hx
  | number s m =>
      cases y with
      | nan => exact absurd rfl hy
      | number t n =>
          have hmono : f.units m.rank < f.units n.rank ↔ m.rank < n.rank :=
            f.units_strictMono.lt_iff_lt
          have hmono' : f.units n.rank < f.units m.rank ↔ n.rank < m.rank :=
            f.units_strictMono.lt_iff_lt
          simp only [exact, Magnitude.units] at h
          cases s <;> cases t <;> simp at h <;> simp only [orderKey] <;> omega

theorem exact_le_of_orderKey_le {x y : Binary f} (hx : x ≠ nan) (hy : y ≠ nan)
    (h : x.orderKey ≤ y.orderKey) : x.exact ≤ y.exact := by
  by_contra hlt
  have hkey := orderKey_lt_of_exact_lt hy hx (Int.not_le.mp hlt)
  omega

/-- **The total order tells all numbers apart**, the two zeros as well. -/
theorem orderKey_injective : Function.Injective (orderKey : Binary f → Int) := by
  intro x y h
  cases x with
  | nan =>
      cases y with
      | nan => rfl
      | number t n =>
          have hn := n.rank_le
          cases t <;> simp only [orderKey] at h <;> omega
  | number s m =>
      have hm := m.rank_le
      cases y with
      | nan => cases s <;> simp only [orderKey] at h <;> omega
      | number t n =>
          obtain ⟨i, hi⟩ := m
          obtain ⟨j, hj⟩ := n
          cases s <;> cases t <;> simp only [orderKey] at h
          case false.false | true.true =>
            obtain rfl : i = j := by omega
            rfl
          all_goals omega

/-! ## Sums and differences -/

theorem roundUnits_ne_nan (n : Int) (d : Nat) (zeroSign : Bool) :
    roundUnits f n d zeroSign ≠ nan := by
  simp [roundUnits]

theorem exact_roundUnits (n : Int) (zeroSign : Bool) :
    (roundUnits f n 1 zeroSign).exact = f.roundSigned n := by
  by_cases h0 : n = 0
  · subst h0
    simp [roundUnits, exact, Magnitude.nearest, Magnitude.units]
  · by_cases hneg : n < 0
    · simp [roundUnits, exact, Magnitude.nearest, Magnitude.units, Format.roundSigned, h0, hneg]
    · simp [roundUnits, exact, Magnitude.nearest, Magnitude.units, Format.roundSigned, h0, hneg]

theorem add_eq_roundUnits {x y : Binary f} (hx : x.isFinite = true) (hy : y.isFinite = true) :
    ∃ zeroSign, x + y = roundUnits f (x.exact + y.exact) 1 zeroSign := by
  cases x with
  | nan => cases hx
  | number s m =>
      cases y with
      | nan => cases hy
      | number t n =>
          have hm : m.isFinite = true := hx
          have hn : n.isFinite = true := hy
          refine ⟨s && t, ?_⟩
          show add (number s m) (number t n) = _
          simp only [add, hm, hn, exact]

/-- **A sum is the exact sum after one rounding.** -/
theorem exact_add {x y : Binary f} (hx : x.isFinite = true) (hy : y.isFinite = true) :
    x + y ≠ nan ∧ (x + y).exact = f.roundSigned (x.exact + y.exact) := by
  obtain ⟨zeroSign, h⟩ := add_eq_roundUnits hx hy
  rw [h]
  exact ⟨roundUnits_ne_nan _ _ _, exact_roundUnits _ _⟩

/-- An infinite term is never lost in a sum. -/
theorem isFinite_of_isFinite_add {x y : Binary f} (h : (x + y).isFinite = true) :
    x.isFinite = true ∧ y.isFinite = true := by
  cases x with
  | nan => cases h
  | number s m =>
      cases y with
      | nan => cases h
      | number t n =>
          change (add (number s m) (number t n)).isFinite = true at h
          change m.isFinite = true ∧ n.isFinite = true
          cases hm : m.isFinite <;> cases hn : n.isFinite <;> simp only [add, hm, hn] at h
          · split at h
            · exact absurd (h.symm.trans hm) Bool.noConfusion
            · cases h
          · exact absurd (h.symm.trans hm) Bool.noConfusion
          · exact absurd (h.symm.trans hn) Bool.noConfusion
          · exact ⟨rfl, rfl⟩

theorem isFinite_negate {x : Binary f} : x.negate.isFinite = x.isFinite := by
  cases x <;> rfl

theorem exact_negate (x : Binary f) : x.negate.exact = -x.exact := by
  cases x with
  | nan => rfl
  | number s m => cases s <;> simp [negate, exact]

/-- **A difference is the exact difference after one rounding.** -/
theorem exact_sub {x y : Binary f} (hx : x.isFinite = true) (hy : y.isFinite = true) :
    x - y ≠ nan ∧ (x - y).exact = f.roundSigned (x.exact - y.exact) := by
  have h := exact_add hx (isFinite_negate.trans hy)
  rw [exact_negate] at h
  exact h

theorem abs_ne_nan {x : Binary f} (h : x ≠ nan) : x.abs ≠ nan := by
  cases x with
  | nan => exact absurd rfl h
  | number s m => simp [abs]

theorem exact_abs (x : Binary f) : x.abs.exact = x.exact.natAbs := by
  cases x with
  | nan => rfl
  | number s m => cases s <;> simp [abs, exact]

theorem isFinite_abs {x : Binary f} : x.abs.isFinite = x.isFinite := by
  cases x <;> rfl

/-! ## Numbers that are not below zero -/

theorem zero_ne_nan : (zero : Binary f) ≠ nan := by
  simp [zero]

@[simp] theorem exact_zero : (zero : Binary f).exact = 0 := by
  simp [zero, exact, Magnitude.zero, Magnitude.units]

theorem value_le_iff {x y : Binary f} : x.value ≤ y.value ↔ x.exact ≤ y.exact := by
  have hscale : (0 : ℚ) < 2 ^ f.scale := by positivity
  rw [value, value, div_le_div_iff_of_pos_right hscale, Int.cast_le]

theorem value_eq_iff {x y : Binary f} : x.value = y.value ↔ x.exact = y.exact := by
  rw [le_antisymm_iff, value_le_iff, value_le_iff, le_antisymm_iff]

theorem value_pos_iff {x : Binary f} : 0 < x.value ↔ 0 < x.exact := by
  have hscale : (0 : ℚ) < 2 ^ f.scale := by positivity
  rw [value, div_pos_iff_of_pos_right hscale, Int.cast_pos]

/-- A number that is not below zero.  Infinity and negative zero count. -/
structure NonNegative (x : Binary f) : Prop where
  ne_nan : x ≠ nan
  exact_nonneg : 0 ≤ x.exact

namespace NonNegative

theorem isFinite_of_le {x y : Binary f} (hx : x.NonNegative) (hy : y.isFinite = true)
    (h : x.exact ≤ y.exact) : x.isFinite = true := by
  have hbound := natAbs_exact_lt hy
  have hnonneg := hx.exact_nonneg
  cases x with
  | nan => exact absurd rfl hx.ne_nan
  | number s m =>
      have hunits : (number s m : Binary f).exact.natAbs = f.units m.rank := by
        cases s <;> simp [exact, Magnitude.units]
      have hlt : f.units m.rank < f.units f.infinityRank := by omega
      exact decide_eq_true (f.units_strictMono.lt_iff_lt.mp hlt)

theorem abs {x : Binary f} (hx : x ≠ nan) : x.abs.NonNegative :=
  ⟨abs_ne_nan hx, by rw [exact_abs]; exact Int.natCast_nonneg _⟩

/-- A product is negative only as a zero. -/
theorem mul {x y : Binary f} (hx : x.NonNegative) (hy : y.NonNegative) (hfx : x.isFinite = true)
    (hfy : y.isFinite = true) : (x * y).NonNegative := by
  cases x with
  | nan => exact absurd rfl hx.ne_nan
  | number s m =>
      cases y with
      | nan => exact absurd rfl hy.ne_nan
      | number t n =>
          have hprod : (number s m * number t n : Binary f) =
              number (s != t) (.nearest f (m.units * n.units) (Nat.pow 2 f.scale)) := by
            show Binary.mul (number s m) (number t n) = _
            have hm : m.isFinite = true := hfx
            have hn : n.isFinite = true := hfy
            simp only [Binary.mul, hm, hn, Bool.and_self, if_true]
          have hm := hx.exact_nonneg
          have hn := hy.exact_nonneg
          rw [hprod]
          refine ⟨by simp, ?_⟩
          by_cases hsign : s = t
          · simp [exact, hsign]
          · -- one of the factors has the sign, so it is a zero
            have hzero : m.units * n.units = 0 := by
              rw [Nat.mul_eq_zero]
              cases s <;> cases t <;> simp_all [exact]
            rw [hzero]
            simp [exact, Magnitude.nearest, Magnitude.units]

end NonNegative

section Single

variable {x y : Single}

theorem NonNegative.eq_infinity (hx : x.NonNegative) (h : x.isFinite = false) :
    x = infinity := by
  cases x with
  | nan => exact absurd rfl hx.ne_nan
  | number s m =>
      obtain rfl := Magnitude.eq_infinity_of_not_isFinite h
      cases s with
      | false => rfl
      | true =>
          have hpos : 0 < Format.single.units Format.single.infinityRank := by decide
          have hnonneg := hx.exact_nonneg
          simp [exact, Magnitude.units, Magnitude.infinity] at hnonneg
          omega

theorem infinity_add (hy : y.NonNegative) : infinity + y = infinity := by
  cases hfin : y.isFinite with
  | false =>
      rw [hy.eq_infinity hfin]
      rfl
  | true =>
      cases y with
      | nan => cases hfin
      | number t n =>
          have hn : n.isFinite = true := hfin
          show Binary.add (number false .infinity) (number t n) = _
          simp only [Binary.add, hn]
          rfl

theorem add_infinity (hx : x.NonNegative) : x + infinity = infinity := by
  cases hfin : x.isFinite with
  | false =>
      rw [hx.eq_infinity hfin]
      rfl
  | true =>
      cases x with
      | nan => cases hfin
      | number s m =>
          have hm : m.isFinite = true := hfin
          show Binary.add (number s m) (number false .infinity) = _
          simp only [Binary.add, hm]
          rfl

theorem nonNegative_infinity : (infinity : Single).NonNegative :=
  ⟨by simp [infinity], Int.natCast_nonneg _⟩

/-- Sums stay in range: two infinities cannot cancel. -/
theorem NonNegative.add (hx : x.NonNegative) (hy : y.NonNegative) : (x + y).NonNegative := by
  cases hfx : x.isFinite with
  | false =>
      rw [hx.eq_infinity hfx, infinity_add hy]
      exact nonNegative_infinity
  | true =>
      cases hfy : y.isFinite with
      | false =>
          rw [hy.eq_infinity hfy, add_infinity hx]
          exact nonNegative_infinity
      | true =>
          obtain ⟨hnum, hexact⟩ := exact_add hfx hfy
          refine ⟨hnum, ?_⟩
          have hmono := Format.single.roundSigned_mono
            (Int.add_nonneg hx.exact_nonneg hy.exact_nonneg)
          rw [hexact]
          rwa [Format.roundSigned_zero] at hmono

end Single

end Binary

end ContentNegotiation
