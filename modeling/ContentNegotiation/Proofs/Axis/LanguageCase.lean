import ContentNegotiation.Proofs.Axis.LanguageTag

/-!
# The normal case of language tags

Case carries no meaning in a tag, and it is the only thing that normal case forgets.

* `LanguageTag.normalize_eq_iff` — which parts have the same normal case.
* `LanguageTag.ofTag_eq_iff` — two texts make the same tag if and only if they differ in case alone.
* `LanguageTag.Made` — the tags that can be made, checked or not.
* `LanguageTag.Made.normalize_eq` — all of them have normal case.

Principal result: `LanguageTag.normal_case`.
-/

namespace ContentNegotiation

namespace LanguageTag

variable {l k : LanguageTag} {s t : Text}

/-! ## What normal case forgets -/

/-- Subtags keep their letters. -/
theorem lower_normalizeSubtag (t : Text) : Text.lower (normalizeSubtag t) = Text.lower t := by
  unfold normalizeSubtag
  split
  · exact Text.lower_upper t
  · exact Text.lower_lower t

/-- The case in which a subtag was written does not matter. -/
theorem normalizeSubtag_lower (t : Text) : normalizeSubtag (Text.lower t) = normalizeSubtag t := by
  have hregion : isRegion (Text.lower t) = isRegion t := by simp [isRegion]
  rw [normalizeSubtag, normalizeSubtag, hregion, Text.upper_lower, Text.lower_lower]

theorem normalize_eq_iff :
    l.normalize = k.normalize ↔
      Text.lower l.primary = Text.lower k.primary ∧
        l.subtags.map Text.lower = k.subtags.map Text.lower := by
  have hlower : ∀ us : List Text, (us.map normalizeSubtag).map Text.lower = us.map Text.lower := by
    simp [lower_normalizeSubtag]
  have hnormal : ∀ us : List Text,
      (us.map Text.lower).map normalizeSubtag = us.map normalizeSubtag := by
    simp [normalizeSubtag_lower]
  rw [normalize, normalize, LanguageTag.mk.injEq]
  refine and_congr_right fun _ => ⟨fun h => ?_, fun h => ?_⟩
  · rw [← hlower, h, hlower]
  · rw [← hnormal, h, hnormal]

/-- **Two texts make the same tag if and only if they are the same but for case and the blanks
around them.** -/
theorem ofTag_eq_iff :
    ofTag s = ofTag t ↔ Text.sameIgnoringCase (Text.trim s) (Text.trim t) = true := by
  have hhyphen : Char.isAlphanum '-' = false := by decide
  rw [Text.sameIgnoringCase, beq_iff_eq, ← (Text.pieces_injective '-').eq_iff,
    Text.pieces_lower hhyphen, Text.pieces_lower hhyphen, Prod.mk.injEq]
  exact normalize_eq_iff (l := ⟨(Text.pieces '-' s.trim).1, (Text.pieces '-' s.trim).2⟩)
    (k := ⟨(Text.pieces '-' t.trim).1, (Text.pieces '-' t.trim).2⟩)

/-! ## Tags that can be made -/

/-- Made from a text, with or without a check, or from a text and a region. -/
inductive Made : LanguageTag → Prop
  | ofTag (tag : Text) : Made (ofTag tag)
  | withRegion (tag region : Text) : Made (withRegion tag region)
  | read {tag : Text} {l : LanguageTag} (h : read tag = some l) : Made l

theorem normalize_withRegion (tag region : Text) :
    (withRegion tag region).normalize = withRegion tag region := by
  simp [withRegion, ofTag, normalize, Text.lower_lower, normalizeSubtag_normalizeSubtag]

theorem Made.normalize_eq (h : l.Made) : l.normalize = l := by
  cases h with
  | ofTag tag => exact normalize_ofTag tag
  | withRegion tag region => exact normalize_withRegion tag region
  | read h =>
      obtain ⟨rfl, -⟩ := read_eq_some_iff.mp h
      exact normalize_ofTag _

/-- **The normal case of language tags.**  Two texts make the same tag if and only if they are the
same but for case and the blanks around them.  A text can be read if and only if the tag made from
it is well formed, and then that tag is read.  A well-formed tag, however it was made, is read back
from its printed form. -/
theorem normal_case :
    (∀ s t, ofTag s = ofTag t ↔ Text.sameIgnoringCase (Text.trim s) (Text.trim t) = true) ∧
    (∀ s l, read s = some l ↔ (ofTag s).isWellFormed = true ∧ ofTag s = l) ∧
    ∀ l : LanguageTag, l.Made → l.isWellFormed = true → read l.print = some l := by
  refine ⟨fun s t => ofTag_eq_iff, fun s l => ?_, fun l hmade hwell => ?_⟩
  · rw [read_eq_some_iff]
    constructor
    · rintro ⟨rfl, hwell⟩
      exact ⟨hwell, rfl⟩
    · rintro ⟨hwell, rfl⟩
      exact ⟨rfl, hwell⟩
  · rw [read_print hwell, hmade.normalize_eq]

/-- Chinese in traditional writing, as in Taiwan. -/
def traditional : LanguageTag :=
  withRegion "Zh-Hant".toList "tW".toList

theorem traditional_normal_case :
    traditional.Made ∧ traditional.isWellFormed = true ∧
      traditional.print = "zh-hant-TW".toList ∧ read traditional.print = some traditional ∧
      ofTag " ZH-hant-tw".toList = ofTag "zh-HANT-TW".toList := by
  have hwell : traditional.isWellFormed = true := by decide
  obtain ⟨hsame, -, hback⟩ := normal_case
  exact ⟨.withRegion _ _, hwell, by decide, hback _ (.withRegion _ _) hwell,
    (hsame _ _).mpr (by decide)⟩

end LanguageTag

end ContentNegotiation
