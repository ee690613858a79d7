import ContentNegotiation.Number.Shortest
import ContentNegotiation.Proofs.Number.Value
import ContentNegotiation.Proofs.Text.Case
import Mathlib.Data.Nat.Digits.Defs

/-!
# Printed numbers

A number is printed as a sign and digits with at most one point, which spell the shortest decimal
exactly as it was found. Since that decimal rounds to the number, so does what is read.

* `Decimal.readUnsigned_digits`, `Decimal.readUnsigned_point` — reading digits without and with a
  point.
* `Magnitude.exists_readUnsigned_print` — the digits of a finite magnitude round to it.

Principal results: `Binary.read_print` (every number is read back from its printed form) and
`Binary.isToken_print` (which has neither blanks nor separators).
-/

namespace ContentNegotiation

namespace Decimal

/-! ## Digits -/

/-- Nothing but decimal digits. -/
def AllDigits (t : Text) : Prop := ∀ c ∈ t, c.isDigit = true

theorem natOfDigits_eq (t : Text) : natOfDigits t = Nat.ofDigitChars 10 t 0 := rfl

@[simp] theorem natOfDigits_digitsOfNat (n : Nat) : natOfDigits (digitsOfNat n) = n :=
  Nat.ofDigitChars_toDigits (by decide) (by decide)

theorem allDigits_digitsOfNat (n : Nat) : AllDigits (digitsOfNat n) :=
  fun _ hc => Nat.isDigit_of_mem_toDigits (by decide) (by decide) hc

theorem digitsOfNat_ne_nil (n : Nat) : digitsOfNat n ≠ [] :=
  Nat.toDigits_ne_nil

theorem allDigits_replicate_zero (k : Nat) : AllDigits (List.replicate k '0') := by
  intro c hc
  rw [List.eq_of_mem_replicate hc]
  rfl

theorem AllDigits.append {s t : Text} (hs : AllDigits s) (ht : AllDigits t) :
    AllDigits (s ++ t) := by
  intro c hc
  rcases List.mem_append.mp hc with hc | hc
  · exact hs c hc
  · exact ht c hc

theorem natOfDigits_append_zeros (t : Text) (k : Nat) :
    natOfDigits (t ++ List.replicate k '0') = natOfDigits t * 10 ^ k := by
  rw [natOfDigits_eq, Nat.ofDigitChars_append, Nat.ofDigitChars_replicate_zero, Nat.mul_comm]
  rfl

theorem natOfDigits_zeros_append (k : Nat) (t : Text) :
    natOfDigits (List.replicate k '0' ++ t) = natOfDigits t := by
  rw [natOfDigits_eq, Nat.ofDigitChars_append, Nat.ofDigitChars_replicate_zero, Nat.mul_zero]
  rfl

/-! ## Reading digits -/

section Reading

variable {whole fraction : Text}

/-- Digits are read up to a character that is none. -/
theorem span_digits (hwhole : AllDigits whole) (rest : Text)
    (hrest : ∀ c ∈ rest.head?, c.isDigit = false) :
    (whole ++ rest).span Char.isDigit = (whole, rest) := by
  rw [List.span_eq_takeWhile_dropWhile, List.takeWhile_append_of_pos hwhole,
    List.dropWhile_append_of_pos hwhole]
  cases rest with
  | nil => simp
  | cons c rest =>
      have hc := hrest c rfl
      simp [hc]

theorem readUnsigned_digits (hwhole : AllDigits whole) (hne : whole ≠ []) :
    readUnsigned whole = some (natOfDigits whole, 0) := by
  have hspan := span_digits hwhole [] (by simp)
  rw [List.append_nil] at hspan
  simp only [readUnsigned, hspan, splitFraction]
  simp [hne]

theorem readUnsigned_point (hwhole : AllDigits whole) (hfraction : AllDigits fraction)
    (hne : whole ≠ []) :
    readUnsigned (whole ++ '.' :: fraction) =
      some (natOfDigits (whole ++ fraction), -(fraction.length : Int)) := by
  have hspan := span_digits hwhole ('.' :: fraction) (by simp)
  have hspan' := span_digits hfraction [] (by simp)
  rw [List.append_nil] at hspan'
  simp only [readUnsigned, hspan, splitFraction, hspan']
  simp [hne]

end Reading

/-- A significand that takes the zeros of the exponent into itself rounds to the same magnitude,
unless the exponent alone is beyond the format. -/
theorem magnitude_mul_pow {f : Format} {s k : Nat} (h : (magnitude f s k).isFinite = true) :
    magnitude f (s * 10 ^ k) 0 = magnitude f s k := by
  have hinfinity : (Magnitude.infinity : Magnitude f).isFinite = false := by
    simp [Magnitude.isFinite, Magnitude.infinity]
  by_cases hs : s = 0
  · simp [magnitude, hs]
  · have hk : ¬ f.topExponent ≤ k := by
      intro hle
      simp [magnitude, hs, hle, hinfinity] at h
    have hzero : ¬ f.topExponent ≤ 0 := by omega
    have hpow : s * 10 ^ k ≠ 0 := Nat.mul_ne_zero hs (by positivity)
    simp [magnitude, hs, hk, hzero]

end Decimal

namespace Magnitude

open Decimal (AllDigits natOfDigits readUnsigned)

/-! ## The layout of a decimal -/

/-- A point with at least one digit before it leaves the digits as they are. -/
theorem exists_pointAt_eq {digits : Text} (hdigits : AllDigits digits) (places : Nat) :
    ∃ whole fraction, pointAt places digits = whole ++ '.' :: fraction ∧ AllDigits whole ∧
      AllDigits fraction ∧ whole ≠ [] ∧ fraction.length = places ∧
      natOfDigits (whole ++ fraction) = natOfDigits digits := by
  let padded := List.replicate (places + 1 - digits.length) '0' ++ digits
  have hpadded : AllDigits padded := (Decimal.allDigits_replicate_zero _).append hdigits
  have hlength : places + 1 ≤ padded.length := by
    simp only [padded, List.length_append, List.length_replicate]
    omega
  refine ⟨padded.take (padded.length - places), padded.drop (padded.length - places), rfl, ?_, ?_,
    ?_, ?_, ?_⟩
  · exact fun c hc => hpadded c (List.mem_of_mem_take hc)
  · exact fun c hc => hpadded c (List.mem_of_mem_drop hc)
  · intro hnil
    have := congrArg List.length hnil
    simp only [List.length_take, List.length_nil] at this
    omega
  · simp only [List.length_drop]
    omega
  · rw [List.take_append_drop, Decimal.natOfDigits_zeros_append]

/-- **What is laid out is read as the same decimal**, apart from the zeros of a whole number. -/
theorem readUnsigned_positional (s : Nat) (e : Int) :
    readUnsigned (positional s e) =
      match e with
      | .ofNat k => some (s * 10 ^ k, 0)
      | .negSucc k => some (s, .negSucc k) := by
  have hdigits := Decimal.allDigits_digitsOfNat s
  cases e with
  | ofNat k =>
      have hne : Decimal.digitsOfNat s ++ List.replicate k '0' ≠ [] :=
        List.append_ne_nil_of_left_ne_nil (Decimal.digitsOfNat_ne_nil s) _
      rw [positional,
        Decimal.readUnsigned_digits (hdigits.append (Decimal.allDigits_replicate_zero k)) hne,
        Decimal.natOfDigits_append_zeros, Decimal.natOfDigits_digitsOfNat]
  | negSucc k =>
      obtain ⟨whole, fraction, hpoint, hwhole, hfraction, hne, hlength, hsame⟩ :=
        exists_pointAt_eq hdigits (k + 1)
      rw [positional, hpoint, Decimal.readUnsigned_point hwhole hfraction hne, hsame, hlength,
        Decimal.natOfDigits_digitsOfNat]
      rfl

/-- A decimal is laid out as digits and what is left after the first point. -/
theorem exists_digits_positional (s : Nat) (e : Int) :
    ∃ whole rest, positional s e = whole ++ rest ∧ AllDigits whole ∧ whole ≠ [] ∧
      ∀ c ∈ rest, c.isDigit = true ∨ c = '.' := by
  have hdigits := Decimal.allDigits_digitsOfNat s
  cases e with
  | ofNat k =>
      refine ⟨_, _, rfl, hdigits, Decimal.digitsOfNat_ne_nil s, ?_⟩
      exact fun c hc => .inl (Decimal.allDigits_replicate_zero k c hc)
  | negSucc k =>
      obtain ⟨whole, fraction, hpoint, hwhole, hfraction, hne, -, -⟩ :=
        exists_pointAt_eq hdigits (k + 1)
      refine ⟨whole, '.' :: fraction, hpoint, hwhole, hne, ?_⟩
      intro c hc
      rcases List.mem_cons.mp hc with rfl | hc
      · exact .inr rfl
      · exact .inl (hfraction c hc)

variable {f : Format} {m : Magnitude f}

/-- **The digits of a finite magnitude round to it.** -/
theorem exists_readUnsigned_print (hfinite : m.isFinite = true) :
    ∃ s e, readUnsigned m.print = some (s, e) ∧ Decimal.magnitude f s e = m := by
  have hshortest := magnitude_shortest m hfinite
  rw [print, if_pos hfinite, readUnsigned_positional]
  generalize m.shortest = d at hshortest ⊢
  obtain ⟨s, e⟩ := d
  cases e with
  | ofNat k =>
      refine ⟨_, _, rfl, ?_⟩
      rw [← hshortest] at hfinite ⊢
      exact Decimal.magnitude_mul_pow hfinite
  | negSucc k => exact ⟨_, _, rfl, hshortest⟩

end Magnitude

/-! ## Reading numerals -/

/-- A text that begins with a digit has neither a sign nor the name of a special value. -/
def Text.HeadDigit (t : Text) : Prop := ∃ c r, t = c :: r ∧ c.isDigit = true

theorem Magnitude.headDigit_print {f : Format} {m : Magnitude f} (h : m.isFinite = true) :
    m.print.HeadDigit := by
  obtain ⟨whole, rest, hprint, hwhole, hne, -⟩ :=
    exists_digits_positional m.shortest.1 m.shortest.2
  obtain ⟨c, whole, rfl⟩ := List.exists_cons_of_ne_nil hne
  exact ⟨c, whole ++ rest, by rw [print, if_pos h, hprint, List.cons_append],
    hwhole c List.mem_cons_self⟩

theorem Decimal.splitSign_of_headDigit {t : Text} (h : t.HeadDigit) :
    splitSign t = (false, t) := by
  obtain ⟨c, r, rfl, hc⟩ := h
  unfold splitSign
  split
  · rename_i heq
    cases heq
    cases hc
  · rename_i heq
    cases heq
    cases hc
  · rfl

theorem Numeral.read_of_headDigit {t body : Text} {negative : Bool}
    (hsign : Decimal.splitSign t = (negative, body)) (hbody : body.HeadDigit) :
    read t = (Decimal.readUnsigned body).map fun d => .finite ⟨negative, d.1, d.2⟩ := by
  obtain ⟨c, r, rfl, hc⟩ := hbody
  have hlower : Text.lower (c :: r) = c :: Text.lower r := by
    have hupper : ¬ c.isUpper = true := by
      simp only [Char.isDigit, Char.isUpper, Bool.and_eq_true, decide_eq_true_eq,
        UInt32.le_iff_toNat_le, Char.reduceVal, UInt32.reduceToNat, ge_iff_le] at hc ⊢
      omega
    rw [Text.lower, List.map_cons, Char.toLower_eq_of_not_isUpper hupper]
    rfl
  have hname : ∀ d name, d.isDigit = false → Text.lower (c :: r) ≠ d :: name := by
    rintro d name hd heq
    rw [hlower] at heq
    cases heq
    cases hd.symm.trans hc
  have hinf : Text.lower (c :: r) ≠ "inf".toList := hname 'i' "nf".toList rfl
  have hinfinity : Text.lower (c :: r) ≠ "infinity".toList := hname 'i' "nfinity".toList rfl
  have hnan : Text.lower (c :: r) ≠ "nan".toList := hname 'n' "an".toList rfl
  simp only [read, hsign, hinf, hinfinity, hnan, decide_false, Bool.or_self, Bool.false_eq_true,
    if_false]

namespace Binary

variable {f : Format}

theorem read_of_readUnsigned {t body : Text} {negative : Bool} {s : Nat} {e : Int}
    (hsign : Decimal.splitSign t = (negative, body)) (hbody : body.HeadDigit)
    (h : Decimal.readUnsigned body = some (s, e)) :
    Binary.read f t = some (.number negative (Decimal.magnitude f s e)) := by
  rw [Binary.read, Numeral.read_of_headDigit hsign hbody, h]
  rfl

/-- **Every number is read back from its printed form**, with the sign of its zero. -/
theorem read_print (x : Binary f) : Binary.read f x.print = some x := by
  cases x with
  | nan => rfl
  | number negative m =>
      cases hfinite : m.isFinite with
      | true =>
          obtain ⟨s, e, hread, hvalue⟩ := Magnitude.exists_readUnsigned_print hfinite
          have hdigit := Magnitude.headDigit_print hfinite
          have hsign : Decimal.splitSign (number negative m).print = (negative, m.print) := by
            cases negative with
            | true => rfl
            | false => exact Decimal.splitSign_of_headDigit hdigit
          rw [read_of_readUnsigned hsign hdigit hread, hvalue]
      | false =>
          have hprint : m.print = "inf".toList := by simp [Magnitude.print, hfinite]
          rw [Magnitude.eq_infinity_of_not_isFinite hfinite] at hprint ⊢
          cases negative with
          | true =>
              rw [print, hprint]
              rfl
          | false =>
              rw [print, hprint]
              rfl

theorem isTokenChar_of_mem_print {m : Magnitude f} {c : Char} (hc : c ∈ m.print) :
    isTokenChar c = true := by
  cases hfinite : m.isFinite with
  | true =>
      obtain ⟨whole, rest, hprint, hwhole, -, hrest⟩ :=
        Magnitude.exists_digits_positional m.shortest.1 m.shortest.2
      have hdigit : ∀ d : Char, d.isDigit = true → isTokenChar d = true :=
        fun d hd => isTokenChar_of_isAlphanum (by simp [Char.isAlphanum, hd])
      rw [Magnitude.print, if_pos hfinite, hprint] at hc
      rcases List.mem_append.mp hc with hc | hc
      · exact hdigit c (hwhole c hc)
      · rcases hrest c hc with hc | rfl
        · exact hdigit c hc
        · rfl
  | false =>
      have hname : Text.isToken "inf".toList = true := by decide
      rw [Magnitude.print, hfinite] at hc
      exact (Text.isToken_iff.mp hname).2 c hc

/-- **A printed number is a token**, so it has neither blanks nor separators. -/
theorem isToken_print (x : Binary f) : x.print.isToken = true := by
  cases x with
  | nan =>
      have hname : Text.isToken "NaN".toList = true := by decide
      exact hname
  | number negative m =>
      have hne : m.print ≠ [] := by
        cases hfinite : m.isFinite with
        | true =>
            obtain ⟨c, t, hprint, -⟩ := Magnitude.headDigit_print hfinite
            rw [hprint]
            exact List.cons_ne_nil c t
        | false => simp [Magnitude.print, hfinite]
      have hm : m.print.isToken = true :=
        Text.isToken_iff.mpr ⟨hne, fun c => isTokenChar_of_mem_print⟩
      cases negative with
      | true =>
          refine Text.isToken_iff.mpr ⟨List.cons_ne_nil _ _, ?_⟩
          intro c hc
          rcases List.mem_cons.mp hc with rfl | hc
          · rfl
          · exact isTokenChar_of_mem_print hc
      | false => exact hm

end Binary

end ContentNegotiation
