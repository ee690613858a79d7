import ContentNegotiation.Proofs.Number.Value
import Mathlib.Tactic.Linarith

/-!
# Sums and products that are not below zero

For numbers that are not below zero, the exact value of a sum or product is a function of the exact
values alone, infinity included, so it is monotone.  Near the exact result it is by half a unit of
the last place: a result up to `2 ^ e` is off by at most `2 ^ e / 2 ^ 25`.

Principal results: `Format.two_mul_dist_nearest_le` (what one rounding can change),
`Binary.NonNegative.add_mono` and `Binary.NonNegative.mul_mono`, and `Binary.NonNegative.add_near`
and `Binary.NonNegative.mul_near` (how near a sum or product is).
-/

namespace ContentNegotiation

namespace Format

/-! ## The error of one rounding -/

/-- Every whole multiple of `2 ^ k` up to the end of the binade is the value of a rank. -/
theorem exists_units_eq (f : Format) (k : Nat) {q : Nat} (hq : q ≤ 2 * f.binadeSize) :
    ∃ r ≤ (k + 2) * f.binadeSize, f.units r = q * 2 ^ k := by
  induction k generalizing q with
  | zero =>
      refine ⟨q, by omega, ?_⟩
      have h := f.units_place (Or.inl rfl) hq
      rwa [Nat.zero_mul, Nat.zero_add] at h
  | succ k ih =>
      rcases Nat.lt_or_ge q f.binadeSize with hlow | hhigh
      · -- below the binade an even multiple of half the distance stands for the value
        obtain ⟨r, hr, hunits⟩ := ih (q := 2 * q) (by omega)
        refine ⟨r, by rw [Nat.succ_add, Nat.succ_mul]; omega, ?_⟩
        rw [hunits]
        ring
      · refine ⟨(k + 1) * f.binadeSize + q, ?_, f.units_place (Or.inr hhigh) hq⟩
        have hsum : (k + 1 + 2) * f.binadeSize = (k + 1) * f.binadeSize + 2 * f.binadeSize := by ring
        omega

/-- **One rounding changes a value by at most half the distance between neighbours.** -/
theorem two_mul_dist_nearest_le (f : Format) {n d k : Nat} (hd : 0 < d)
    (hk : k + 2 ≤ f.topExponent) (hn : n ≤ 2 * f.binadeSize * (2 ^ k * d)) :
    2 * Nat.dist (f.units (f.nearest n d) * d) n ≤ 2 ^ k * d := by
  have hrank : ∀ {q}, q ≤ 2 * f.binadeSize →
      Nat.dist (f.units (f.nearest n d) * d) n ≤ Nat.dist (q * (2 ^ k * d)) n := by
    intro q hq
    obtain ⟨r, hr, hunits⟩ := f.exists_units_eq k hq
    have htop : r ≤ f.infinityRank := Nat.le_trans hr (Nat.mul_le_mul_right _ hk)
    have hnear := f.dist_nearest_le (n := n) hd htop
    rwa [hunits, Nat.mul_assoc] at hnear
  have hstep : 0 < 2 ^ k * d := Nat.mul_pos (Nat.two_pow_pos k) hd
  generalize 2 ^ k * d = step at *
  have hsplit := Nat.div_add_mod n step
  have hmod := Nat.mod_lt n hstep
  have hq : n / step ≤ 2 * f.binadeSize := Nat.div_le_of_le_mul (by rwa [Nat.mul_comm] at hn)
  rw [Nat.mul_comm] at hsplit
  have hbelow := hrank hq
  rcases Nat.lt_or_ge (n / step) (2 * f.binadeSize) with hlt | hge
  · have habove := hrank (q := n / step + 1) hlt
    rw [Nat.add_mul] at habove
    simp only [Nat.dist] at hbelow habove ⊢
    omega
  · have hend : n / step = 2 * f.binadeSize := Nat.le_antisymm hq hge
    rw [← hend] at hn
    simp only [Nat.dist] at hbelow ⊢
    omega

/-- The same as a distance of rational numbers. -/
theorem abs_units_nearest_sub_le (f : Format) {n d k : ℕ} (hd : 0 < d) (hk : k + 2 ≤ f.topExponent)
    (hn : (n / d : ℚ) ≤ 2 * f.binadeSize * 2 ^ k) :
    |(f.units (f.nearest n d) : ℚ) - n / d| ≤ 2 ^ k / 2 := by
  have hdpos : (0 : ℚ) < d := by exact_mod_cast hd
  have hbound : n ≤ 2 * f.binadeSize * (2 ^ k * d) := by
    rw [div_le_iff₀ hdpos, mul_assoc] at hn
    exact_mod_cast hn
  have hdist := f.two_mul_dist_nearest_le hd hk hbound
  generalize f.units (f.nearest n d) = u at hdist ⊢
  have hupper : 2 * (u * d) ≤ 2 * n + 2 ^ k * d := by
    simp only [Nat.dist] at hdist
    omega
  have hlower : 2 * n ≤ 2 * (u * d) + 2 ^ k * d := by
    simp only [Nat.dist] at hdist
    omega
  have hupper' : (2 * (u * d) : ℚ) ≤ 2 * n + 2 ^ k * d := by exact_mod_cast hupper
  have hlower' : (2 * n : ℚ) ≤ 2 * (u * d) + 2 ^ k * d := by exact_mod_cast hlower
  rw [abs_le, neg_le_sub_iff_le_add, sub_le_iff_le_add, div_le_iff₀ hdpos,
    ← sub_le_iff_le_add', le_div_iff₀ hdpos]
  constructor <;> linarith

/-- Nothing beyond infinity is rounded to less. -/
theorem roundSigned_of_infinity_le (f : Format) {n : Int} (h : (f.units f.infinityRank : Int) ≤ n) :
    f.roundSigned n = f.units f.infinityRank := by
  have hle : f.units f.infinityRank * 1 ≤ n.natAbs := by omega
  have hmono := f.nearest_mono Nat.one_pos hle
  rw [f.nearest_units (Nat.le_refl _) Nat.one_pos] at hmono
  have hinf := Nat.le_antisymm (f.nearest_le n.natAbs 1) hmono
  rw [roundSigned, if_neg (by omega), hinf]

end Format

namespace Binary

namespace NonNegative

variable {x y x' y' : Single}

/-! ## What is rounded -/

theorem natAbs_exact (hx : x.NonNegative) : (x.exact.natAbs : Int) = x.exact :=
  Int.natAbs_of_nonneg hx.exact_nonneg

theorem exact_infinity : (infinity : Single).exact = Format.single.units Format.single.infinityRank :=
  rfl

/-- **The value of a sum**, where infinity counts as the start of the binade it replaces. -/
theorem exact_add (hx : x.NonNegative) (hy : y.NonNegative) :
    (x + y).exact = Format.single.roundSigned (x.exact + y.exact) := by
  cases hfx : x.isFinite with
  | false =>
      have hnonneg := hy.exact_nonneg
      rw [hx.eq_infinity hfx, infinity_add hy, Format.roundSigned_of_infinity_le]
      · exact exact_infinity
      · rw [exact_infinity]
        omega
  | true =>
      cases hfy : y.isFinite with
      | false =>
          have hnonneg := hx.exact_nonneg
          rw [hy.eq_infinity hfy, add_infinity hx, Format.roundSigned_of_infinity_le]
          · exact exact_infinity
          · rw [exact_infinity]
            omega
      | true => exact (Binary.exact_add hfx hfy).2

/-- **The value of a product.** -/
theorem exact_mul (hx : x.NonNegative) (hy : y.NonNegative) (hfx : x.isFinite = true)
    (hfy : y.isFinite = true) :
    (x * y).exact = Format.single.units
      (Format.single.nearest (x.exact.natAbs * y.exact.natAbs) (2 ^ Format.single.scale)) := by
  have hnonneg := (hx.mul hy hfx hfy).natAbs_exact
  cases x with
  | nan => exact absurd rfl hx.ne_nan
  | number s m =>
      cases y with
      | nan => exact absurd rfl hy.ne_nan
      | number t n =>
          have hm : m.isFinite = true := hfx
          have hn : n.isFinite = true := hfy
          have hunits : ∀ (u : Bool) (k : Magnitude .single),
              (number u k : Single).exact.natAbs = k.units := by
            intro u k
            cases u <;> simp [exact]
          have hprod : (number s m * number t n : Single) =
              number (s != t) (.nearest .single (m.units * n.units) (2 ^ Format.single.scale)) := by
            show Binary.mul _ _ = _
            simp only [Binary.mul, hm, hn, Bool.and_self, if_true, Nat.pow_eq]
          rw [← hnonneg, hprod, hunits, hunits, hunits]
          rfl

/-- The product with one is not rounded. -/
theorem exact_mul_one (hx : x.NonNegative) (hfx : x.isFinite = true) :
    (x * one).exact = x.exact := by
  have hone : (one : Single).exact.natAbs = 2 ^ Format.single.scale := by decide +kernel
  obtain ⟨r, hr, hunits⟩ := x.exact_eq_units
  have hnonneg := hx.exact_nonneg
  have habs : x.exact.natAbs = Format.single.units r := by omega
  rw [hx.exact_mul ⟨by decide, by decide⟩ hfx (by decide), hone, habs,
    Format.nearest_units .single hr (Nat.two_pow_pos _)]
  omega

/-! ## Order -/

/-- **Greater terms have a greater sum**, or the same one. -/
theorem add_mono (hx : x.NonNegative) (hy : y.NonNegative) (hx' : x'.NonNegative)
    (hy' : y'.NonNegative) (hxx : x.exact ≤ x'.exact) (hyy : y.exact ≤ y'.exact) :
    (x + y).exact ≤ (x' + y').exact := by
  rw [hx.exact_add hy, hx'.exact_add hy']
  exact Format.single.roundSigned_mono (Int.add_le_add hxx hyy)

/-- **A greater factor has a greater product**, or the same one. -/
theorem mul_mono (hx : x.NonNegative) (hfx : x.isFinite = true) (hy : y.NonNegative)
    (hfy : y.isFinite = true) (hy' : y'.NonNegative) (hfy' : y'.isFinite = true)
    (hyy : y.exact ≤ y'.exact) : (x * y).exact ≤ (x * y').exact := by
  rw [hx.exact_mul hy hfx hfy, hx.exact_mul hy' hfx hfy', Int.ofNat_le]
  have habs : y.exact.natAbs ≤ y'.exact.natAbs := by
    have hnonneg := hy.exact_nonneg
    omega
  exact Format.single.units_strictMono.monotone
    (Format.single.nearest_mono (Nat.two_pow_pos _) (Nat.mul_le_mul_left _ habs))

/-! ## Nearness -/

theorem value_nonneg (hx : x.NonNegative) : 0 ≤ x.value :=
  div_nonneg (by exact_mod_cast hx.exact_nonneg) (by positivity)

theorem value_eq (hx : x.NonNegative) : x.value = x.exact.natAbs / 2 ^ Format.single.scale := by
  rw [value, Nat.cast_natAbs, abs_of_nonneg hx.exact_nonneg]

/-- A distance in units, brought to the scale of values. -/
theorem scaled_near {u q : ℚ} {e : ℕ} (h : |u - q| ≤ 2 ^ (e + 125) / 2) :
    |u / 2 ^ Format.single.scale - q / 2 ^ Format.single.scale| ≤ 2 ^ e / 2 ^ 25 := by
  have hscale : (0 : ℚ) < 2 ^ Format.single.scale := by positivity
  rw [← sub_div, abs_div, abs_of_pos hscale, div_le_iff₀ hscale]
  refine h.trans (le_of_eq ?_)
  rw [show Format.single.scale = 24 + 125 from rfl]
  ring

/-- The value `2 ^ e` in units, as the end of a binade. -/
theorem two_pow_mul_scale (e : ℕ) :
    (2 : ℚ) ^ e * 2 ^ Format.single.scale = 2 * Format.single.binadeSize * 2 ^ (e + 125) := by
  rw [show Format.single.scale = 24 + 125 from rfl, show Format.single.binadeSize = 2 ^ 23 from rfl]
  push_cast
  ring

/-- **A sum up to `2 ^ e` is off by at most `2 ^ e / 2 ^ 25`.** -/
theorem add_near (hx : x.NonNegative) (hy : y.NonNegative) {e : ℕ} (he : e ≤ 128)
    (hsum : x.value + y.value ≤ 2 ^ e) :
    |(x + y).value - (x.value + y.value)| ≤ 2 ^ e / 2 ^ 25 := by
  have hscale : (0 : ℚ) < 2 ^ Format.single.scale := by positivity
  have hexact : x.value + y.value =
      ((x.exact.natAbs + y.exact.natAbs : ℕ) / (1 : ℕ) : ℚ) / 2 ^ Format.single.scale := by
    rw [hx.value_eq, hy.value_eq]
    push_cast
    ring
  have hround : (x + y).exact = Format.single.units
      (Format.single.nearest (x.exact.natAbs + y.exact.natAbs) 1) := by
    rw [hx.exact_add hy, Format.roundSigned, ← hx.natAbs_exact, ← hy.natAbs_exact,
      ← Int.natCast_add, if_neg (by omega)]
    simp only [Int.natAbs_natCast]
  rw [hexact] at hsum ⊢
  rw [value, hround, Int.cast_natCast]
  refine scaled_near (Format.single.abs_units_nearest_sub_le Nat.one_pos ?_ ?_)
  · show e + 125 + 2 ≤ 255
    omega
  · rwa [div_le_iff₀ hscale, two_pow_mul_scale] at hsum

/-- **A product up to `2 ^ e` is off by at most `2 ^ e / 2 ^ 25`.** -/
theorem mul_near (hx : x.NonNegative) (hy : y.NonNegative) (hfx : x.isFinite = true)
    (hfy : y.isFinite = true) {e : ℕ} (he : e ≤ 128) (hprod : x.value * y.value ≤ 2 ^ e) :
    |(x * y).value - x.value * y.value| ≤ 2 ^ e / 2 ^ 25 := by
  have hscale : (0 : ℚ) < 2 ^ Format.single.scale := by positivity
  have hexact : x.value * y.value =
      ((x.exact.natAbs * y.exact.natAbs : ℕ) / (2 ^ Format.single.scale : ℕ) : ℚ) /
        2 ^ Format.single.scale := by
    rw [hx.value_eq, hy.value_eq]
    push_cast
    ring
  rw [hexact] at hprod ⊢
  rw [value, hx.exact_mul hy hfx hfy, Int.cast_natCast]
  refine scaled_near (Format.single.abs_units_nearest_sub_le (Nat.two_pow_pos _) ?_ ?_)
  · show e + 125 + 2 ≤ 255
    omega
  · rwa [div_le_iff₀ hscale, two_pow_mul_scale] at hprod

end NonNegative

end Binary

end ContentNegotiation
