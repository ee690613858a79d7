import ContentNegotiation.Proofs.Text.Cutting
import Mathlib

/-!
# Letter case

Letters and digits are token characters, and a change of case keeps every class made of them.

* `not_isBlank_of_isAlphanum` — a letter or digit is no blank, so trimming never touches it.
* `Text.isToken_lower` — a text is a token if and only if it is one in lower case.
* `Text.pieces_lower` — a change of case moves no separator.
-/

namespace ContentNegotiation

theorem isGraphic_of_isAlphanum {c : Char} (h : c.isAlphanum = true) : isGraphic c = true := by
  simp only [Char.isAlphanum, Char.isAlpha, Char.isUpper, Char.isLower, Char.isDigit, isGraphic,
    Bool.or_eq_true, Bool.and_eq_true, decide_eq_true_eq, UInt32.le_iff_toNat_le,
    Char.reduceVal, UInt32.reduceToNat, ge_iff_le, Char.toNat] at *
  omega

theorem isTokenChar_of_isAlphanum {c : Char} (h : c.isAlphanum = true) : isTokenChar c = true := by
  have hseparators : ∀ d ∈ tokenSeparators, d.isAlphanum = false := by
    simp [tokenSeparators, Char.isAlphanum, Char.isAlpha, Char.isUpper, Char.isLower, Char.isDigit]
  have hmem : c ∉ tokenSeparators := by
    intro hc
    simp [hseparators c hc] at h
  simp [isTokenChar, isGraphic_of_isAlphanum h, hmem]

theorem not_isBlank_of_isAlphanum {c : Char} (h : c.isAlphanum = true) : isBlank c = false :=
  not_isBlank_of_isTokenChar (isTokenChar_of_isAlphanum h)

/-- Lower case only moves letters, and it moves them to letters. -/
theorem toLower_cases (c : Char) :
    c.toLower = c ∨ c.isAlphanum = true ∧ c.toLower.isAlphanum = true := by
  cases hc : c.isUpper with
  | true => exact .inr (by simp [Char.isAlphanum, Char.isAlpha, hc])
  | false => exact .inl (Char.toLower_eq_of_not_isUpper (by simp [hc]))

/-- Lower case makes nothing but letters, so any other character comes from itself. -/
theorem toLower_eq_iff {c d : Char} (hd : d.isAlphanum = false) : c.toLower = d ↔ c = d := by
  rcases toLower_cases c with h | ⟨h, h'⟩
  · rw [h]
  · constructor
    · rintro rfl
      simp [h'] at hd
    · rintro rfl
      simp [h] at hd

@[simp] theorem isAlphanum_toLower (c : Char) : c.toLower.isAlphanum = c.isAlphanum := by
  rcases toLower_cases c with h | ⟨h, h'⟩
  · rw [h]
  · rw [h, h']

@[simp] theorem isAlphanum_toUpper (c : Char) : c.toUpper.isAlphanum = c.isAlphanum := by
  cases hc : c.isLower with
  | true => simp [Char.isAlphanum, Char.isAlpha, hc]
  | false => rw [Char.toUpper_eq_of_not_isLower (by simp [hc])]

@[simp] theorem isTokenChar_toLower (c : Char) : isTokenChar c.toLower = isTokenChar c := by
  rcases toLower_cases c with h | ⟨h, h'⟩
  · rw [h]
  · rw [isTokenChar_of_isAlphanum h, isTokenChar_of_isAlphanum h']

@[simp] theorem isBlank_toLower (c : Char) : isBlank c.toLower = isBlank c := by
  rcases toLower_cases c with h | ⟨h, h'⟩
  · rw [h]
  · rw [not_isBlank_of_isAlphanum h, not_isBlank_of_isAlphanum h']

theorem utf8Size_of_isAlphanum {c : Char} (h : c.isAlphanum = true) : c.utf8Size = 1 := by
  have hgraphic := isGraphic_of_isAlphanum h
  simp only [isGraphic, Bool.and_eq_true, decide_eq_true_eq] at hgraphic
  rw [Char.utf8Size_eq_one_iff, UInt32.le_iff_toNat_le]
  show c.toNat ≤ 127
  omega

@[simp] theorem utf8Size_toLower (c : Char) : c.toLower.utf8Size = c.utf8Size := by
  rcases toLower_cases c with h | ⟨h, h'⟩
  · rw [h]
  · rw [utf8Size_of_isAlphanum h, utf8Size_of_isAlphanum h']

@[simp] theorem utf8Size_toUpper (c : Char) : c.toUpper.utf8Size = c.utf8Size := by
  cases hc : c.isLower with
  | true =>
      have h : c.isAlphanum = true := by simp [Char.isAlphanum, Char.isAlpha, hc]
      have h' : c.toUpper.isAlphanum = true := by rw [isAlphanum_toUpper, h]
      rw [utf8Size_of_isAlphanum h, utf8Size_of_isAlphanum h']
  | false => rw [Char.toUpper_eq_of_not_isLower (by simp [hc])]

namespace Text

@[simp] theorem byteSize_lower (t : Text) : byteSize (lower t) = byteSize t := by
  simp [byteSize, lower, Function.comp_def]

@[simp] theorem byteSize_upper (t : Text) : byteSize (upper t) = byteSize t := by
  simp [byteSize, upper, Function.comp_def]

theorem upper_upper (t : Text) : upper (upper t) = upper t := by
  simp [upper, Function.comp_def, Char.toUpper_toUpper_eq_toUpper]

theorem lower_upper (t : Text) : lower (upper t) = lower t := by
  simp [lower, upper, Function.comp_def]

theorem upper_lower (t : Text) : upper (lower t) = upper t := by
  simp [lower, upper, Function.comp_def]

/-- A separator that is no letter stands where it stood. -/
theorem pieces_lower {sep : Char} (hsep : sep.isAlphanum = false) (t : Text) :
    pieces sep (lower t) = (lower (pieces sep t).1, (pieces sep t).2.map lower) := by
  induction t with
  | nil => rfl
  | cons c t ih =>
      have hcons : lower (c :: t) = c.toLower :: lower t := rfl
      by_cases hc : c = sep
      · rw [hcons, (toLower_eq_iff hsep).mpr hc, hc, pieces_cons_self, pieces_cons_self, ih]
        rfl
      · have hother : c.toLower ≠ sep := mt (toLower_eq_iff hsep).mp hc
        rw [hcons, pieces_cons_of_ne hother, pieces_cons_of_ne hc, ih]
        rfl

@[simp] theorem isToken_lower (t : Text) : isToken (lower t) = isToken t := by
  cases t with
  | nil => rfl
  | cons c t => simp [isToken, lower, List.all_map, Function.comp_def]

theorem Trimmed.lower {t : Text} (h : Trimmed t) : Trimmed (lower t) := by
  constructor
  · intro c hc
    obtain ⟨d, hd, rfl⟩ := Option.map_eq_some_iff.mp (List.head?_map.symm.trans hc)
    rw [isBlank_toLower, h.head d hd]
  · intro c hc
    obtain ⟨d, hd, rfl⟩ := Option.map_eq_some_iff.mp (List.getLast?_map.symm.trans hc)
    rw [isBlank_toLower, h.last d hd]

theorem not_isBlank_of_mem_token {t : Text} (h : t.isToken = true) {c : Char} (hc : c ∈ t) :
    isBlank c = false :=
  not_isBlank_of_isTokenChar ((isToken_iff.mp h).2 c hc)

theorem trimmed_of_isToken {t : Text} (h : t.isToken = true) : Trimmed t :=
  trimmed_of_not_isBlank fun _ hc => not_isBlank_of_mem_token h hc

end Text

end ContentNegotiation
