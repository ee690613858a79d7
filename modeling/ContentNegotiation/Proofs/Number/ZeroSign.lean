import ContentNegotiation.Proofs.Number.Arithmetic
import ContentNegotiation.Proofs.Preference.Quality

/-!
# The sign of a zero

Zero has two signs, which no comparison by value tells apart.  `Binary.Alike` takes two numbers for
the same if they are equal or both zero, and arithmetic keeps it: a result can differ in no more
than the sign of a zero again.

Principal results: `Binary.Alike.add`, `Binary.Alike.sub` and `Binary.Alike.mul_left` (arithmetic),
`Binary.Alike.less_eq` (comparison), `Binary.alike_iff` (the numbers of one value are alike, and no
others), and `Binary.NonNegative.isNegative_add` (when a sum of zero is negative).
-/

namespace ContentNegotiation

namespace Binary

/-- **A sum does not depend on the order of its terms.** -/
theorem add_comm {f : Format} (x y : Binary f) : x + y = y + x := by
  cases x with
  | nan => cases y <;> rfl
  | number s m =>
      cases y with
      | nan => rfl
      | number t n =>
          show Binary.add _ _ = Binary.add _ _
          cases hm : m.isFinite <;> cases hn : n.isFinite <;> simp only [Binary.add, hm, hn]
          case false.false =>
            rw [Magnitude.eq_infinity_of_not_isFinite hm, Magnitude.eq_infinity_of_not_isFinite hn]
            by_cases hst : s = t
            · rw [hst]
            · rw [if_neg hst, if_neg (Ne.symm hst)]
          case true.true => rw [Int.add_comm, Bool.and_comm]

/-- The same number, where the zeros of both signs count as one. -/
inductive Alike : Single → Single → Prop
  | refl (x : Single) : Alike x x
  | zeros (s t : Bool) : Alike (number s .zero) (number t .zero)

theorem units_magnitude_zero {f : Format} : (Magnitude.zero : Magnitude f).units = 0 :=
  f.units_zero

theorem isFinite_magnitude_zero : (Magnitude.zero : Magnitude .single).isFinite = true := by
  decide

/-- A zero has no sign in exact arithmetic. -/
theorem signed_zero (s : Bool) :
    (if s = true then -(((Magnitude.zero : Magnitude .single).units : Nat) : Int)
      else ((Magnitude.zero : Magnitude .single).units : Nat)) = 0 := by
  rw [units_magnitude_zero]
  split <;> rfl

/-- The sign that a sum of zero would take matters to nothing but a zero. -/
theorem alike_roundUnits (n : Int) (d : Nat) (s t : Bool) :
    Alike (roundUnits .single n d s) (roundUnits .single n d t) := by
  by_cases hn : n = 0
  · subst hn
    have hzero : Magnitude.nearest .single (Int.natAbs 0) d = Magnitude.zero := by
      simp [Magnitude.nearest, Magnitude.zero]
    simp only [roundUnits, hzero]
    exact .zeros _ _
  · simp only [roundUnits, if_neg hn]
    exact .refl _

namespace Alike

variable {x y x' y' : Single}

theorem exact_eq (h : Alike x y) : x.exact = y.exact := by
  cases h with
  | refl => rfl
  | zeros s t => simp only [exact, signed_zero]

theorem signedUnits_eq (h : Alike x y) : x.signedUnits = y.signedUnits := by
  cases h with
  | refl => rfl
  | zeros s t => simp only [signedUnits, signed_zero]

/-! ## Comparison -/

theorem less_eq (hx : Alike x x') (hy : Alike y y') : x.less y = x'.less y' := by
  rw [less, hx.signedUnits_eq, hy.signedUnits_eq, less]

theorem sameValue_eq (hx : Alike x x') (hy : Alike y y') : x.sameValue y = x'.sameValue y' := by
  rw [sameValue, hx.signedUnits_eq, hy.signedUnits_eq, sameValue]

/-! ## Arithmetic -/

theorem negate (h : Alike x y) : Alike x.negate y.negate := by
  cases h with
  | refl => exact .refl _
  | zeros s t => exact .zeros (!s) (!t)

theorem abs_eq (h : Alike x y) : x.abs = y.abs := by
  cases h with
  | refl => rfl
  | zeros s t => rfl

theorem add_left (h : Alike x y) (w : Single) : Alike (w + x) (w + y) := by
  cases h with
  | refl => exact .refl _
  | zeros s t =>
      cases w with
      | nan => exact .refl _
      | number u m =>
          show Alike (Binary.add _ _) (Binary.add _ _)
          cases hm : m.isFinite with
          | false =>
              simp only [Binary.add, hm, isFinite_magnitude_zero]
              exact .refl _
          | true =>
              simp only [Binary.add, hm, isFinite_magnitude_zero, signed_zero]
              exact alike_roundUnits _ _ _ _

theorem trans {z : Single} (h : Alike x y) (h' : Alike y z) : Alike x z := by
  cases h with
  | refl => exact h'
  | zeros s t =>
      cases h' with
      | refl => exact .zeros s t
      | zeros _ u => exact .zeros s u

theorem add (hx : Alike x x') (hy : Alike y y') : Alike (x + y) (x' + y') :=
  (hy.add_left x).trans (add_comm x y' ▸ add_comm x' y' ▸ hx.add_left y')

theorem sub (hx : Alike x x') (hy : Alike y y') : Alike (x - y) (x' - y') :=
  hx.add hy.negate

theorem mul_left (h : Alike x y) (w : Single) : Alike (w * x) (w * y) := by
  cases h with
  | refl => exact .refl _
  | zeros s t =>
      cases w with
      | nan => exact .refl _
      | number u m =>
          show Alike (Binary.mul _ _) (Binary.mul _ _)
          cases hm : m.isFinite with
          | false =>
              have hzero : (Magnitude.zero : Magnitude .single).rank = 0 := rfl
              simp only [Binary.mul, hm, hzero, Bool.false_and, Bool.false_eq_true, if_false,
                decide_true, Bool.or_true, if_true]
              exact .refl _
          | true =>
              have hzero : Magnitude.nearest .single (m.units * 0) (Nat.pow 2 Format.single.scale) =
                  Magnitude.zero := by
                simp [Magnitude.nearest, Magnitude.zero]
              simp only [Binary.mul, hm, isFinite_magnitude_zero, Bool.and_self, if_true,
                units_magnitude_zero, hzero]
              exact .zeros _ _

end Alike

/-- **Numbers are alike exactly if they have one value.** -/
theorem alike_iff {x y : Single} (hx : x ≠ nan) (hy : y ≠ nan) :
    Alike x y ↔ x.exact = y.exact := by
  refine ⟨Alike.exact_eq, fun h => ?_⟩
  cases x with
  | nan => exact absurd rfl hx
  | number s m =>
      cases y with
      | nan => exact absurd rfl hy
      | number t n =>
          have hunits : m.units = n.units := by
            have habs := congrArg Int.natAbs h
            cases s <;> cases t <;> simpa [exact] using habs
          obtain rfl := Magnitude.eq_of_units_eq hunits
          by_cases hst : s = t
          · rw [hst]
            exact .refl _
          · -- opposite signs of one magnitude have one value only at zero
            have hzero : m.units = (Magnitude.zero : Magnitude .single).units := by
              rw [units_magnitude_zero]
              cases s <;> cases t <;> simp [exact] at h hst <;> omega
            rw [Magnitude.eq_of_units_eq hzero]
            exact .zeros s t

/-! ## The sign of a sum of zeros -/

/-- The sign, which zeros have as well. -/
def isNegative {f : Format} : Binary f → Bool
  | nan => false
  | number negative _ => negative

section Sign

variable {x y : Single}

theorem eq_number_zero (hx : x ≠ nan) (h : x.exact = 0) : x = number x.isNegative .zero := by
  cases (alike_iff hx zero_ne_nan).mpr (h.trans exact_zero.symm) with
  | refl => rfl
  | zeros s t => rfl

theorem isNegative_eq_false_of_exact_pos (h : 0 < x.exact) : x.isNegative = false := by
  cases x with
  | nan => rfl
  | number s m =>
      cases s with
      | false => rfl
      | true =>
          simp only [exact, if_true] at h
          omega

theorem isNegative_mul (hx : x.isFinite = true) (hy : y.isFinite = true) :
    (x * y).isNegative = (x.isNegative != y.isNegative) := by
  cases x with
  | nan => cases hx
  | number s m =>
      cases y with
      | nan => cases hy
      | number t n =>
          have hm : m.isFinite = true := hx
          have hn : n.isFinite = true := hy
          show (Binary.mul _ _).isNegative = _
          simp only [Binary.mul, hm, hn, Bool.and_self, if_true]
          rfl

/-- Numbers that are not below zero have a sum of zero only if both are zeros. -/
theorem NonNegative.exact_eq_zero_of_add (hx : x.NonNegative) (hy : y.NonNegative)
    (h : (x + y).exact = 0) : x.exact = 0 ∧ y.exact = 0 := by
  have hxnonneg := hx.exact_nonneg
  have hynonneg := hy.exact_nonneg
  rw [hx.exact_add hy] at h
  have hxle := Format.single.roundSigned_mono (show x.exact ≤ x.exact + y.exact by omega)
  have hyle := Format.single.roundSigned_mono (show y.exact ≤ x.exact + y.exact by omega)
  rw [roundSigned_exact] at hxle hyle
  omega

/-- **A sum of zero is negative only if both terms are.** -/
theorem NonNegative.isNegative_add (hx : x.NonNegative) (hy : y.NonNegative)
    (h : (x + y).exact = 0) : (x + y).isNegative = (x.isNegative && y.isNegative) := by
  have hzeros : ∀ s t : Bool,
      (number s .zero + number t .zero : Single) = number (s && t) .zero := by decide
  obtain ⟨hxzero, hyzero⟩ := hx.exact_eq_zero_of_add hy h
  rw [eq_number_zero hx.ne_nan hxzero, eq_number_zero hy.ne_nan hyzero, hzeros]
  rfl

end Sign

end Binary

end ContentNegotiation
