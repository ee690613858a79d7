import ContentNegotiation.Negotiation.Selection
import ContentNegotiation.Proofs.Number.Value
import Mathlib.Algebra.Order.Field.Basic
import Mathlib.Tactic.Linarith
import Mathlib.Tactic.Positivity

/-!
# Comparing totals with a tolerance

The single pass of the selection compares a total with the best one so far through a rounded sum and
a rounded difference.  Rounding cannot blur the comparison where two totals are either the same
number or further apart than twice the tolerance.

Principal results: `meet_of_below`, `meet_of_same` and `meet_of_above` (what the pass does with a
candidate whose total is clearly greater, the same, or clearly smaller).
-/

namespace ContentNegotiation

/-- The tolerance in units. -/
def toleranceUnits : Int := tieTolerance.exact

theorem tieTolerance_eq : tieTolerance = .number false ⟨897988541, by decide⟩ := by decide

theorem tieTolerance_isFinite : tieTolerance.isFinite = true := by
  rw [tieTolerance_eq]
  decide

theorem tieTolerance_ne_nan : tieTolerance ≠ .nan :=
  Binary.ne_nan_of_isFinite tieTolerance_isFinite

theorem toleranceUnits_eq : toleranceUnits = Format.single.units 897988541 := by
  unfold toleranceUnits
  rw [tieTolerance_eq]
  rfl

/-- The tolerance is a millionth rounded down. -/
theorem toleranceUnits_le : toleranceUnits * 10 ^ 6 ≤ 2 ^ Format.single.scale := by
  rw [toleranceUnits_eq]
  decide

theorem toleranceUnits_pos : 0 < toleranceUnits := by
  rw [toleranceUnits_eq]
  decide

/-- Some value of the format lies above the tolerance and not above its double. -/
theorem exists_value_above_tolerance :
    ∃ r ≤ Format.single.infinityRank, toleranceUnits < Format.single.units r ∧
      (Format.single.units r : Int) ≤ 2 * toleranceUnits := by
  rw [toleranceUnits_eq]
  exact ⟨897988542, by decide, by decide, by decide⟩

/-! ## Totals that are clearly apart -/

/-- Both totals are finite, and the first is smaller by more than twice the tolerance. -/
structure Below (x y : Single) : Prop where
  left : x.isFinite = true
  right : y.isFinite = true
  gap : 2 * toleranceUnits < y.exact - x.exact

theorem Below.exact_lt {x y : Single} (h : Below x y) : x.exact < y.exact := by
  have hgap := h.gap
  have hpos := toleranceUnits_pos
  omega

theorem Below.ne {x y : Single} (h : Below x y) : x ≠ y := by
  rintro rfl
  exact Int.lt_irrefl _ h.exact_lt

theorem Below.orderKey_lt {x y : Single} (h : Below x y) : x.orderKey < y.orderKey :=
  Binary.orderKey_lt_of_exact_lt (Binary.ne_nan_of_isFinite h.left)
    (Binary.ne_nan_of_isFinite h.right) h.exact_lt

/-- Two finite totals that differ by more than two millionths are apart one way or the other. -/
theorem below_or_below {x y : Single} (hx : x.isFinite = true) (hy : y.isFinite = true)
    (h : 2 / 10 ^ 6 < |x.value - y.value|) : Below x y ∨ Below y x := by
  have htol : (toleranceUnits : ℚ) * 10 ^ 6 ≤ 2 ^ Format.single.scale := by
    exact_mod_cast toleranceUnits_le
  have hscale : (0 : ℚ) < 2 ^ Format.single.scale := by positivity
  have hdiff : x.value - y.value = ((x.exact - y.exact : Int) : ℚ) / 2 ^ Format.single.scale := by
    rw [Binary.value, Binary.value, ← sub_div, Int.cast_sub]
  have hgap : ((2 * toleranceUnits : Int) : ℚ) < ((|x.exact - y.exact| : Int) : ℚ) := by
    rw [hdiff, abs_div, abs_of_pos hscale, lt_div_iff₀ hscale] at h
    rw [Int.cast_abs]
    push_cast at h ⊢
    linarith
  have hgap' : 2 * toleranceUnits < |x.exact - y.exact| := by exact_mod_cast hgap
  rcases lt_abs.mp hgap' with h | h
  · right
    exact ⟨hy, hx, h⟩
  · left
    exact ⟨hx, hy, by omega⟩

/-! ## One step of the pass -/

section Step

variable {l : Negotiator.Leaders} {r : Ranked}

/-- The sum of the best total and the tolerance stays below a total that is clearly greater: of
these two the best total is the nearer one. -/
theorem less_of_below {x y : Single} (h : Below x y) : (x + tieTolerance).less y = true := by
  obtain ⟨hnum, hexact⟩ := Binary.exact_add h.left tieTolerance_isFinite
  rw [Binary.less_iff hnum (Binary.ne_nan_of_isFinite h.right), hexact]
  have hgap := h.gap
  have hpos := toleranceUnits_pos
  obtain ⟨rank, hr, hu⟩ := x.exact_eq_units
  -- The best total is a number itself and one tolerance away from the sum, so rounding moves the
  -- sum by no more than one tolerance.
  have hnear := Format.single.natAbs_roundSigned_sub_le (x.exact + tieTolerance.exact) hr hu
  rw [← toleranceUnits] at hnear ⊢
  omega

/-- Adding the tolerance never leads below the best total. -/
theorem not_less_of_exact_le {x y : Single} (hx : x.isFinite = true) (hy : y.isFinite = true)
    (h : y.exact ≤ x.exact) : ¬ (x + tieTolerance).less y = true := by
  obtain ⟨hnum, hexact⟩ := Binary.exact_add hx tieTolerance_isFinite
  rw [Binary.less_iff hnum (Binary.ne_nan_of_isFinite hy), hexact]
  have hpos := toleranceUnits_pos
  have hmono := Format.single.roundSigned_mono (show x.exact ≤ x.exact + tieTolerance.exact by
    rw [← toleranceUnits]; omega)
  rw [x.roundSigned_exact] at hmono
  omega

theorem within_of_exact_eq {x y : Single} (hx : x.isFinite = true) (hy : y.isFinite = true)
    (h : x.exact = y.exact) : (x - y).abs.atMost tieTolerance = true := by
  obtain ⟨hnum, hexact⟩ := Binary.exact_sub hx hy
  rw [Binary.atMost_iff (Binary.abs_ne_nan hnum) tieTolerance_ne_nan, Binary.exact_abs, hexact, h,
    Int.sub_self, Format.roundSigned_zero, ← toleranceUnits]
  exact Int.le_of_lt toleranceUnits_pos

theorem not_within_of_below {x y : Single} (h : Below y x) :
    ¬ (y - x).abs.atMost tieTolerance = true := by
  obtain ⟨hnum, hexact⟩ := Binary.exact_sub h.left h.right
  rw [Binary.atMost_iff (Binary.abs_ne_nan hnum) tieTolerance_ne_nan, Binary.exact_abs, hexact,
    ← toleranceUnits]
  have hgap := h.gap
  -- Rounding cannot take the difference below a number that it lies above.
  obtain ⟨rank, hr, hlow, hhigh⟩ := exists_value_above_tolerance
  have hmono := Format.single.roundSigned_mono
    (show y.exact - x.exact ≤ -(Format.single.units rank : Int) by omega)
  have hfixed : Format.single.roundSigned (-(Format.single.units rank : Int)) =
      -(Format.single.units rank : Int) := by
    have := Format.single.natAbs_roundSigned_sub_le (-(Format.single.units rank : Int)) hr
      (Or.inr rfl)
    omega
  rw [hfixed] at hmono
  omega

/-- The three things the pass does with a candidate. -/
theorem meet_cases (l : Negotiator.Leaders) (r : Ranked) :
    ((l.best + tieTolerance).less r.score.total = true ∧ l.meet r = ⟨r.score.total, [r]⟩) ∨
    ¬ (l.best + tieTolerance).less r.score.total = true ∧
      ((r.score.total - l.best).abs.atMost tieTolerance = true ∧
          l.meet r = { l with tied := l.tied ++ [r] } ∨
        ¬ (r.score.total - l.best).abs.atMost tieTolerance = true ∧ l.meet r = l) := by
  unfold Negotiator.Leaders.meet
  split
  · rename_i hbeyond
    exact Or.inl ⟨hbeyond, rfl⟩
  · rename_i hbeyond
    refine Or.inr ⟨hbeyond, ?_⟩
    split
    · rename_i hwithin
      exact Or.inl ⟨hwithin, rfl⟩
    · rename_i hapart
      exact Or.inr ⟨hapart, rfl⟩

theorem meet_of_below (h : Below l.best r.score.total) : l.meet r = ⟨r.score.total, [r]⟩ := by
  unfold Negotiator.Leaders.meet
  rw [if_pos (less_of_below h)]

theorem meet_of_same (hr : r.score.total.isFinite = true) (h : r.score.total = l.best) :
    l.meet r = { l with tied := l.tied ++ [r] } := by
  unfold Negotiator.Leaders.meet
  rw [← h, if_neg (not_less_of_exact_le hr hr (Int.le_refl _)),
    if_pos (within_of_exact_eq hr hr rfl)]

theorem meet_of_above (h : Below r.score.total l.best) : l.meet r = l := by
  rw [Negotiator.Leaders.meet,
    if_neg (not_less_of_exact_le h.right h.left (Int.le_of_lt h.exact_lt)),
    if_neg (not_within_of_below h)]

/-- A total above the start of the pass is beyond the tolerance there. -/
theorem meet_none (hnum : r.score.total ≠ .nan)
    (hr : Negotiator.Leaders.none.best.exact < r.score.total.exact) :
    Negotiator.Leaders.none.meet r = ⟨r.score.total, [r]⟩ := by
  have hstart : (Negotiator.Leaders.none.best + tieTolerance : Single) =
      Negotiator.Leaders.none.best := by
    rw [tieTolerance_eq]
    rfl
  unfold Negotiator.Leaders.meet
  rw [if_pos]
  rw [hstart]
  exact (Binary.less_iff (by simp [Negotiator.Leaders.none]) hnum).mpr hr

/-- Every finite total is above the start of the pass. -/
theorem exact_start_lt (hr : r.score.total.isFinite = true) :
    Negotiator.Leaders.none.best.exact < r.score.total.exact := by
  have hlt := Binary.natAbs_exact_lt hr
  have hinf : Negotiator.Leaders.none.best.exact =
      -(Format.single.units Format.single.infinityRank : Int) := rfl
  omega

end Step

end ContentNegotiation
