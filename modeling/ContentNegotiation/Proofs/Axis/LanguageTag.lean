import ContentNegotiation.Axis.LanguageTag
import ContentNegotiation.Proofs.Text.Case

/-!
# Printed language tags

* `LanguageTag.Plain` — the parts are runs of letters and digits, so none is a wildcard.
* `LanguageTag.isWellFormed_iff` — the well-formed tags are the plain ones and the wildcard alone.
* `LanguageTag.normalize_ofTag` — whatever a tag is made from, it has normal case.
* `LanguageTag.read_print` — a well-formed tag is read back from its printed form, in normal case.
-/

namespace ContentNegotiation

namespace LanguageTag

/-! ## Parts -/

section Part

variable {p : Char → Bool} {t : Text}

theorem isPart_iff : isPart p t = true ↔ (1 ≤ t.length ∧ t.length ≤ 8) ∧ ∀ c ∈ t, p c = true := by
  simp [isPart, and_assoc]

theorem isPart_map {f : Char → Char} (hf : ∀ c, p (f c) = p c) (t : Text) :
    isPart p (t.map f) = isPart p t := by
  simp [isPart, Function.comp_def, hf]

@[simp] theorem isPart_normalizeSubtag (t : Text) :
    isPart Char.isAlphanum (normalizeSubtag t) = isPart Char.isAlphanum t := by
  unfold normalizeSubtag
  split
  · exact isPart_map isAlphanum_toUpper t
  · exact isPart_map isAlphanum_toLower t

theorem isPart_alphanum_of_alpha (h : isPart Char.isAlpha t = true) :
    isPart Char.isAlphanum t = true := by
  obtain ⟨hlength, hchars⟩ := isPart_iff.mp h
  refine isPart_iff.mpr ⟨hlength, ?_⟩
  intro c hc
  simp [Char.isAlphanum, hchars c hc]

/-- A character outside the class occurs in no part. -/
theorem not_mem_of_isPart {c : Char} (h : isPart p t = true) (hc : p c = false) : c ∉ t := by
  intro hmem
  simp [(isPart_iff.mp h).2 c hmem] at hc

end Part

/-! ## Well-formed tags -/

/-- The parts of the tag are runs of letters and digits of the allowed lengths. -/
structure Plain (l : LanguageTag) : Prop where
  primary : isPart Char.isAlpha l.primary = true
  subtags : ∀ t ∈ l.subtags, isPart Char.isAlphanum t = true

section Plain

variable {l : LanguageTag}

theorem Plain.primary_ne_wildcard (h : l.Plain) : l.primary ≠ wildcardText := by
  intro heq
  have hstar : '*' ∉ l.primary := not_mem_of_isPart h.primary (by decide)
  simp [heq, wildcardText] at hstar

theorem Plain.wildcard_not_mem_subtags (h : l.Plain) : wildcardText ∉ l.subtags := by
  intro hmem
  exact absurd (h.subtags _ hmem) (by decide)

theorem isWellFormed_iff : l.isWellFormed = true ↔ l = ⟨wildcardText, []⟩ ∨ l.Plain := by
  obtain ⟨primary, subtags⟩ := l
  by_cases hstar : primary = wildcardText
  · subst hstar
    have hplain : ¬ Plain ⟨wildcardText, subtags⟩ := fun h => h.primary_ne_wildcard rfl
    simp [isWellFormed, isWildcard, hplain]
  · have hiff : Plain ⟨primary, subtags⟩ ↔
        isPart Char.isAlpha primary = true ∧ ∀ t ∈ subtags, isPart Char.isAlphanum t = true :=
      ⟨fun h => ⟨h.primary, h.subtags⟩, fun h => ⟨h.1, h.2⟩⟩
    simp [isWellFormed, isWildcard, hstar, hiff]

/-! ## Reading a printed tag -/

/-- The tag in the case in which it is read. -/
def normalize (l : LanguageTag) : LanguageTag :=
  ⟨Text.lower l.primary, l.subtags.map normalizeSubtag⟩

theorem Plain.normalize (h : l.Plain) : l.normalize.Plain := by
  constructor
  · show isPart Char.isAlpha (l.primary.map Char.toLower) = true
    rw [isPart_map Char.isAlpha_toLower_eq_isAlpha, h.primary]
  · intro t ht
    obtain ⟨s, hs, rfl⟩ := List.mem_map.mp ht
    rw [isPart_normalizeSubtag, h.subtags s hs]

/-- A plain tag is written with letters, digits and hyphens, so it is a single token. -/
theorem Plain.isToken_print (h : l.Plain) : l.print.isToken = true := by
  obtain ⟨⟨hlength, -⟩, -⟩ := isPart_iff.mp h.primary
  have hpart : ∀ t, isPart Char.isAlphanum t = true → ∀ c ∈ t, isTokenChar c = true :=
    fun t ht c hc => isTokenChar_of_isAlphanum ((isPart_iff.mp ht).2 c hc)
  refine Text.isToken_iff.mpr ⟨?_, ?_⟩
  · intro hnil
    simp [(List.append_eq_nil_iff.mp hnil).1] at hlength
  · intro c hc
    rcases List.mem_append.mp hc with hc | hc
    · exact hpart l.primary (isPart_alphanum_of_alpha h.primary) c hc
    · simp only [List.mem_flatten, List.mem_map] at hc
      obtain ⟨-, ⟨t, ht, rfl⟩, hc⟩ := hc
      rcases List.mem_cons.mp hc with rfl | hc
      · decide
      · exact hpart t (h.subtags t ht) c hc

/-- Splitting the printed form gives the parts that were written. -/
theorem Plain.ofTag_print (h : l.Plain) : ofTag l.print = l.normalize := by
  have hprimary : '-' ∉ l.primary := not_mem_of_isPart h.primary (by decide)
  have hsubtags : ∀ t ∈ l.subtags, '-' ∉ t :=
    fun t ht => not_mem_of_isPart (h.subtags t ht) (by decide)
  rw [ofTag, (Text.trimmed_of_isToken h.isToken_print).trim, print, Text.pieces_flatten hprimary hsubtags]
  rfl

@[simp] theorem isRegion_normalizeSubtag (t : Text) :
    isRegion (normalizeSubtag t) = isRegion t := by
  unfold normalizeSubtag
  split <;> simp [isRegion]

theorem normalizeSubtag_normalizeSubtag (t : Text) :
    normalizeSubtag (normalizeSubtag t) = normalizeSubtag t := by
  rw [normalizeSubtag, isRegion_normalizeSubtag]
  cases h : isRegion t with
  | true => simp [normalizeSubtag, h, Text.upper_upper]
  | false => simp [normalizeSubtag, h, Text.lower_lower]

/-- **Whatever a tag is made from, it has normal case.** -/
theorem normalize_ofTag (t : Text) : (ofTag t).normalize = ofTag t := by
  simp [ofTag, normalize, Text.lower_lower, normalizeSubtag_normalizeSubtag]

/-- A well-formed tag is written as a single token. -/
theorem isToken_print (h : l.isWellFormed = true) : l.print.isToken = true := by
  rcases isWellFormed_iff.mp h with rfl | h
  · decide
  · exact h.isToken_print

theorem read_eq_some_iff {t : Text} :
    read t = some l ↔ ofTag t = l ∧ l.isWellFormed = true := by
  simp only [read, Option.ite_none_right_eq_some, Option.some.injEq]
  constructor
  · rintro ⟨hwell, rfl⟩
    exact ⟨rfl, hwell⟩
  · rintro ⟨rfl, hwell⟩
    exact ⟨hwell, rfl⟩

/-- **A well-formed tag is read back from its printed form, in normal case.** -/
theorem read_print (h : l.isWellFormed = true) : read l.print = some l.normalize := by
  rcases isWellFormed_iff.mp h with rfl | h
  · decide
  · have hwell : l.normalize.isWellFormed = true := isWellFormed_iff.mpr (.inr h.normalize)
    simp [read, h.ofTag_print, hwell]

end Plain

end LanguageTag

end ContentNegotiation
