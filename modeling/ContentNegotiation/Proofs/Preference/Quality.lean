import ContentNegotiation.Preference.Quality
import ContentNegotiation.Proofs.Number.ReadBack
import ContentNegotiation.Proofs.Number.Value

/-!
# Qualities

A quality is a finite number that is not below zero. One is the only number of the highest quality,
so a list that leaves the highest quality out loses nothing.
-/

namespace ContentNegotiation

/-- Numbers above zero are equal if their values are. -/
theorem Binary.eq_of_exact_eq {f : Format} {x y : Binary f} (h : x.exact = y.exact)
    (hpos : 0 < y.exact) : x = y := by
  cases x with
  | nan =>
      rw [← h] at hpos
      exact absurd hpos (Int.lt_irrefl 0)
  | number s m =>
      cases y with
      | nan => exact absurd hpos (Int.lt_irrefl 0)
      | number t n =>
          cases s <;> cases t <;> simp only [exact, if_true, if_false, Bool.false_eq_true] at h hpos
          case false.false => rw [Magnitude.eq_of_units_eq (Int.ofNat_inj.mp h)]
          -- a value with a minus sign is not above zero
          all_goals omega

namespace Quality

theorem ne_nan (q : Quality) : q.value ≠ .nan := by
  intro h
  have hnonneg := q.nonneg
  rw [h] at hnonneg
  cases hnonneg

theorem nonNegative (q : Quality) : q.value.NonNegative := by
  refine ⟨q.ne_nan, ?_⟩
  have h := (Binary.atMost_iff Binary.zero_ne_nan q.ne_nan).mp q.nonneg
  rwa [Binary.exact_zero] at h

theorem isFinite (q : Quality) : q.value.isFinite = true := by
  have hone : (Binary.one : Single).isFinite = true := by decide
  exact q.nonNegative.isFinite_of_le hone
    ((Binary.atMost_iff q.ne_nan (Binary.ne_nan_of_isFinite hone)).mp q.le_one)

/-- **Only one counts as the highest quality.** -/
theorem eq_highest_of_isHighest {q : Quality} (h : q.isHighest = true) : q = highest := by
  have hne : (Binary.one : Single) ≠ .nan := by decide
  have hpos : 0 < (Binary.one : Single).exact := by decide
  have hvalue := Binary.eq_of_exact_eq ((Binary.sameValue_iff q.ne_nan hne).mp h) hpos
  obtain ⟨value, hnonneg, hle⟩ := q
  cases hvalue
  rfl

/-- **A quality is read back from its printed form.** -/
theorem read_print (q : Quality) : Binary.read .single q.print = some q.value :=
  Binary.read_print q.value

theorem ofSingle_value (q : Quality) : ofSingle q.value = some q := by
  simp [ofSingle, q.nonneg, q.le_one]

end Quality

end ContentNegotiation
