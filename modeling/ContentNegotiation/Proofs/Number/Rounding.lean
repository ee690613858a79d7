import ContentNegotiation.Number.Format
import Mathlib.Data.Nat.Dist
import Mathlib.Order.Monotone.Basic
import Mathlib.Tactic.Ring

/-!
# Rounding to the nearest value

Ranks are compared through their units.  Every rank is a place `q` after `k` doublings, where its
units are `q * 2 ^ k` (`Format.units_place`), and rounding divides by the distance that neighbours
have at that place.

Principal results: `Format.units_strictMono` (a higher rank is a larger value),
`Format.dist_nearest_le` (no value of the format is nearer than the rounded one) and
`Format.nearest_mono` (rounding keeps the order).
-/

namespace ContentNegotiation

namespace Format

/-! ## Ranks and units -/

/-- The units of place `q` after `k` doublings. -/
theorem units_place (f : Format) {k q : Nat} (hk : k = 0 ∨ f.binadeSize ≤ q)
    (hq : q ≤ 2 * f.binadeSize) : f.units (k * f.binadeSize + q) = q * 2 ^ k := by
  have hpos := f.binadeSize_pos
  by_cases hlow : q < f.binadeSize
  · have hk0 : k = 0 := by omega
    subst hk0
    rw [Nat.zero_mul, Nat.zero_add, units_of_lt hlow, Nat.pow_zero, Nat.mul_one]
  · by_cases htop : q = 2 * f.binadeSize
    · have h := f.units_binade (k + 1) hpos
      have hrank : (k + 1 + 1) * f.binadeSize + 0 = k * f.binadeSize + q := by
        rw [htop]; ring
      rw [hrank] at h
      rw [h, htop, Nat.pow_eq, Nat.pow_succ]
      ring
    · have h := f.units_binade k (show q - f.binadeSize < f.binadeSize by omega)
      have hrank : (k + 1) * f.binadeSize + (q - f.binadeSize) = k * f.binadeSize + q := by
        rw [Nat.add_mul]; omega
      rw [hrank] at h
      rw [h, Nat.add_sub_cancel' (by omega), Nat.pow_eq]

/-- Every rank is a place after some doublings. -/
theorem exists_place (f : Format) (r : Nat) :
    ∃ k q, r = k * f.binadeSize + q ∧ (k = 0 ∨ f.binadeSize ≤ q) ∧ q < 2 * f.binadeSize := by
  have hpos := f.binadeSize_pos
  by_cases h : r < f.binadeSize
  · exact ⟨0, r, by omega, Or.inl rfl, by omega⟩
  · obtain ⟨k, hk⟩ : ∃ k, r / f.binadeSize = k + 1 :=
      Nat.exists_eq_add_one.2 (Nat.div_pos (by omega) hpos)
    have hmod := Nat.mod_lt r hpos
    have hsplit := Nat.div_add_mod r f.binadeSize
    rw [hk, Nat.mul_comm, Nat.add_mul] at hsplit
    exact ⟨k, f.binadeSize + r % f.binadeSize, by omega, Or.inr (by omega), by omega⟩

/-- **A higher rank is a larger value.** -/
theorem units_strictMono (f : Format) : StrictMono f.units := by
  refine strictMono_nat_of_lt_succ ?_
  intro r
  obtain ⟨k, q, rfl, hk, hq⟩ := f.exists_place r
  rw [Nat.add_assoc, f.units_place hk (by omega), f.units_place (by omega) (by omega)]
  exact Nat.mul_lt_mul_of_pos_right (by omega) (Nat.two_pow_pos k)

/-! ## Division -/

theorem divideToEven_le (n d : Nat) : divideToEven n d ≤ n / d + 1 := by
  simp only [divideToEven]
  split
  · omega
  · split
    · omega
    · split <;> omega

theorem le_divideToEven (n d : Nat) : n / d ≤ divideToEven n d := by
  simp only [divideToEven]
  split
  · omega
  · split
    · omega
    · split <;> omega

/-- No multiple of the divisor is nearer than the chosen one. -/
theorem dist_divideToEven_le (n d j : Nat) (hd : 0 < d) :
    Nat.dist (divideToEven n d * d) n ≤ Nat.dist (j * d) n := by
  have hsplit : n / d * d + n % d = n := by
    rw [Nat.mul_comm]
    exact Nat.div_add_mod n d
  have hmod := Nat.mod_lt n hd
  have hnext : (n / d + 1) * d = n / d * d + d := by ring
  have hj : j * d ≤ n / d * d ∨ n / d * d + d ≤ j * d := by
    rcases Nat.lt_or_ge (n / d) j with h | h
    · right
      rw [← hnext]
      exact Nat.mul_le_mul_right d h
    · left
      exact Nat.mul_le_mul_right d h
  simp only [Nat.dist, divideToEven]
  split
  · omega
  · split
    · rw [hnext]
      omega
    · split
      · omega
      · rw [hnext]
        omega

/-! ## Rounding -/

/-- Rounding picks a place after some doublings, or infinity if that is below the place.  The place
is nearest among all multiples of the distance between neighbours, and that distance is not too
coarse for the value. -/
theorem nearest_place (f : Format) (n : Nat) {d : Nat} (hd : 0 < d) :
    ∃ k q, f.nearest n d = min f.infinityRank (k * f.binadeSize + q) ∧
      (k = 0 ∨ f.binadeSize ≤ q) ∧ q ≤ 2 * f.binadeSize ∧
      (k = 0 ∨ f.binadeSize * 2 ^ k * d ≤ n) ∧
      ∀ j, Nat.dist (q * 2 ^ k * d) n ≤ Nat.dist (j * 2 ^ k * d) n := by
  have hpos := f.binadeSize_pos
  have hsize : f.binadeSize = 2 ^ f.fractionBits := rfl
  generalize hk : f.doublings (n / d) = k
  have hstep : 0 < d * 2 ^ k := Nat.mul_pos hd (Nat.two_pow_pos k)
  have hdiv : n / (d * 2 ^ k) = n / d / 2 ^ k := (Nat.div_div_eq_div_mul ..).symm
  have hlow := le_divideToEven n (d * 2 ^ k)
  have hhigh := divideToEven_le n (d * 2 ^ k)
  have hbelow : n / d / 2 ^ k < 2 * f.binadeSize := by
    rw [Nat.div_lt_iff_lt_mul (Nat.two_pow_pos k), hsize, ← Nat.pow_succ', ← Nat.pow_add]
    refine Nat.lt_of_lt_of_le Nat.lt_log2_self (Nat.pow_le_pow_right (by omega) ?_)
    simp only [doublings] at hk
    omega
  have habove : k = 0 ∨ f.binadeSize * 2 ^ k ≤ n / d := by
    by_cases hk0 : k = 0
    · exact Or.inl hk0
    · right
      have hne : n / d ≠ 0 := by
        intro h0
        rw [h0] at hk
        simp [doublings] at hk
        omega
      rw [hsize, ← Nat.pow_add]
      refine Nat.le_trans (Nat.pow_le_pow_right (by omega) ?_) (Nat.log2_self_le hne)
      simp only [doublings] at hk
      omega
  refine ⟨k, divideToEven n (d * 2 ^ k), ?_, ?_, by omega, ?_, ?_⟩
  · simp only [nearest, hk, Nat.pow_eq]
  · refine habove.imp_right ?_
    intro h
    have := (Nat.le_div_iff_mul_le (Nat.two_pow_pos k)).mpr h
    omega
  · exact habove.imp_right fun h => (Nat.le_div_iff_mul_le hd).mp h
  · intro j
    have h := dist_divideToEven_le n (d * 2 ^ k) j hstep
    rw [Nat.mul_assoc, Nat.mul_assoc, Nat.mul_comm (2 ^ k) d]
    exact h

/-- A value that lies no coarser than the place is a multiple of the distance there; any other lies
below the place, and then a multiple of the distance lies between. -/
theorem dist_place_le (f : Format) {n d k q : Nat} (hk : k = 0 ∨ f.binadeSize * 2 ^ k * d ≤ n)
    (hq : ∀ j, Nat.dist (q * 2 ^ k * d) n ≤ Nat.dist (j * 2 ^ k * d) n) (r : Nat) :
    Nat.dist (q * 2 ^ k * d) n ≤ Nat.dist (f.units r * d) n := by
  obtain ⟨l, p, rfl, hl, hp⟩ := f.exists_place r
  rw [f.units_place hl (Nat.le_of_lt hp)]
  rcases Nat.lt_or_ge l k with hlk | hkl
  · have hbelow : p * 2 ^ l * d ≤ f.binadeSize * 2 ^ k * d := by
      refine Nat.mul_le_mul_right d ?_
      calc p * 2 ^ l ≤ 2 * f.binadeSize * 2 ^ l := Nat.mul_le_mul_right _ (by omega)
        _ = f.binadeSize * 2 ^ (l + 1) := by ring
        _ ≤ f.binadeSize * 2 ^ k := Nat.mul_le_mul_left _ (Nat.pow_le_pow_right (by omega) hlk)
    have hmultiple := hq f.binadeSize
    have habove : f.binadeSize * 2 ^ k * d ≤ n := by omega
    refine Nat.le_trans hmultiple ?_
    simp only [Nat.dist]
    omega
  · have hmultiple : p * 2 ^ l = p * 2 ^ (l - k) * 2 ^ k := by
      rw [Nat.mul_assoc, ← Nat.pow_add, Nat.sub_add_cancel hkl]
    rw [hmultiple]
    exact hq _

/-- **No value of the format is nearer than the rounded one.** -/
theorem dist_nearest_le (f : Format) {n d r : Nat} (hd : 0 < d) (hr : r ≤ f.infinityRank) :
    Nat.dist (f.units (f.nearest n d) * d) n ≤ Nat.dist (f.units r * d) n := by
  obtain ⟨k, q, hnear, hk, hq, hcoarse, hall⟩ := f.nearest_place n hd
  have hplace := f.units_place hk hq
  have hunbounded : ∀ s, Nat.dist (q * 2 ^ k * d) n ≤ Nat.dist (f.units s * d) n :=
    f.dist_place_le hcoarse hall
  rcases Nat.lt_or_ge f.infinityRank (k * f.binadeSize + q) with hover | hin
  · -- infinity stands for the place, which lies above it
    rw [hnear, Nat.min_eq_left (Nat.le_of_lt hover)]
    have hplaceAbove := Nat.mul_lt_mul_of_pos_right (f.units_strictMono hover) hd
    rw [hplace] at hplaceAbove
    have hinf := Nat.mul_le_mul_right d (f.units_strictMono.monotone hr)
    have hfar := hunbounded r
    simp only [Nat.dist] at hfar ⊢
    omega
  · rw [hnear, Nat.min_eq_right hin, hplace]
    exact hunbounded r

/-- **Rounding keeps the order.** -/
theorem nearest_mono (f : Format) {n m d : Nat} (hd : 0 < d) (h : n ≤ m) :
    f.nearest n d ≤ f.nearest m d := by
  rcases Nat.lt_or_ge (f.nearest m d) (f.nearest n d) with hlt | hle
  · have hunits := Nat.mul_lt_mul_of_pos_right (f.units_strictMono hlt) hd
    have hn : Nat.dist (f.units (f.nearest n d) * d) n ≤ Nat.dist (f.units (f.nearest m d) * d) n :=
      f.dist_nearest_le hd (f.nearest_le m d)
    have hm : Nat.dist (f.units (f.nearest m d) * d) m ≤ Nat.dist (f.units (f.nearest n d) * d) m :=
      f.dist_nearest_le hd (f.nearest_le n d)
    have heq : n = m := by
      simp only [Nat.dist] at hn hm
      omega
    rw [heq]
  · exact hle

end Format

end ContentNegotiation
