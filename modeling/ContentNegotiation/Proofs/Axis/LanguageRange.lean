import ContentNegotiation.Axis.LanguageTag
import Mathlib.Data.List.Infix

/-!
# Language tags as ranges

Further subtags narrow a language down, so a tag stands for all tags that go on from it.  Tags are
compared as far as both go, which makes matching the same in both directions.

* `LanguageTag.Extends` — a tag begins with all of another one (`Extends.refl`, `Extends.trans`).
* `LanguageTag.Narrows` — it says more as well: the strict part of that order.
* `LanguageTag.specificity_eq` — the match of two tags, read off the order.

Principal result: `LanguageTag.matching_by_extension`.
-/

namespace ContentNegotiation

namespace LanguageTag

variable {a b c : LanguageTag}

/-! ## The order of tags -/

/-- The tag has the primary tag of another one and begins with its subtags. -/
structure Extends (l base : LanguageTag) : Prop where
  primary : base.primary = l.primary
  subtags : base.subtags <+: l.subtags

/-- The tag has the primary tag of another one, whose subtags are a proper prefix of its own. -/
structure Narrows (l base : LanguageTag) : Prop extends Extends l base where
  proper : base.subtags ≠ l.subtags

instance (l base : LanguageTag) : Decidable (l.Extends base) :=
  decidable_of_iff (base.primary = l.primary ∧ base.subtags <+: l.subtags)
    ⟨fun h => ⟨h.1, h.2⟩, fun h => ⟨h.primary, h.subtags⟩⟩

instance (l base : LanguageTag) : Decidable (l.Narrows base) :=
  decidable_of_iff (l.Extends base ∧ base.subtags ≠ l.subtags)
    ⟨fun h => ⟨h.1, h.2⟩, fun h => ⟨h.toExtends, h.proper⟩⟩

theorem eq_iff : a = b ↔ a.primary = b.primary ∧ a.subtags = b.subtags := by
  cases a
  cases b
  rw [LanguageTag.mk.injEq]

theorem Extends.refl (a : LanguageTag) : a.Extends a :=
  ⟨rfl, List.prefix_refl _⟩

theorem Extends.trans (hcb : c.Extends b) (hba : b.Extends a) : c.Extends a :=
  ⟨hba.primary.trans hcb.primary, hba.subtags.trans hcb.subtags⟩

theorem extends_iff : b.Extends a ↔ a = b ∨ b.Narrows a := by
  constructor
  · intro h
    by_cases hsubtags : a.subtags = b.subtags
    · exact .inl (eq_iff.mpr ⟨h.primary, hsubtags⟩)
    · exact .inr ⟨h, hsubtags⟩
  · rintro (rfl | h)
    · exact .refl a
    · exact h.toExtends

theorem Narrows.ne (h : b.Narrows a) : a ≠ b := by
  rintro rfl
  exact h.proper rfl

/-! ## Matches -/

/-- Lists that are the same as far as both go are the lists of which one begins with the other. -/
theorem take_shared_eq_iff {s t : List Text} :
    s.take (min s.length t.length) = t.take (min s.length t.length) ↔ s <+: t ∨ t <+: s := by
  rcases Nat.le_total s.length t.length with hle | hle
  · rw [Nat.min_eq_left hle, List.take_length, ← List.prefix_iff_eq_take]
    refine ⟨.inl, ?_⟩
    rintro (h | h)
    · exact h
    · rw [h.eq_of_length_le hle]
  · rw [Nat.min_eq_right hle, List.take_length, eq_comm, ← List.prefix_iff_eq_take]
    refine ⟨.inr, ?_⟩
    rintro (h | h)
    · rw [h.eq_of_length_le hle]
    · exact h

/-- **The match of a tag other than the wildcard, read off the order of tags.** -/
theorem specificity_eq (ha : a.isWildcard = false) :
    a.specificity b =
      if a = b then some .exact
      else if b.Narrows a ∨ a.Narrows b then some .family
      else none := by
  unfold specificity
  rw [if_neg (by simp [ha])]
  by_cases hprimary : a.primary = b.primary
  · rw [if_neg (by simp [hprimary])]
    by_cases hsubtags : a.subtags = b.subtags
    · rw [if_pos (by simp [hsubtags]), if_pos (eq_iff.mpr ⟨hprimary, hsubtags⟩)]
    · have hne : a ≠ b := fun h => hsubtags (eq_iff.mp h).2
      have hnarrows : b.Narrows a ∨ a.Narrows b ↔
          a.subtags <+: b.subtags ∨ b.subtags <+: a.subtags :=
        or_congr
          ⟨fun h => h.subtags, fun h => ⟨⟨hprimary, h⟩, hsubtags⟩⟩
          ⟨fun h => h.subtags, fun h => ⟨⟨hprimary.symm, h⟩, Ne.symm hsubtags⟩⟩
      simp only [beq_iff_eq, hsubtags, hne, if_false, take_shared_eq_iff, hnarrows]
  · have hne : a ≠ b := fun h => hprimary (eq_iff.mp h).1
    have hnarrows : ¬ (b.Narrows a ∨ a.Narrows b) := by
      rintro (h | h)
      · exact hprimary h.primary
      · exact hprimary h.primary.symm
    rw [if_pos (by simp [hprimary]), if_neg hne, if_neg hnarrows]

theorem specificity_comm (ha : a.isWildcard = false) (hb : b.isWildcard = false) :
    b.specificity a = a.specificity b := by
  simp only [specificity_eq ha, specificity_eq hb, eq_comm, or_comm]

/-- A tag matches whatever goes on from it. -/
theorem isSome_specificity_of_extends (ha : a.isWildcard = false) (h : b.Extends a) :
    (a.specificity b).isSome = true := by
  rw [specificity_eq ha]
  rcases extends_iff.mp h with heq | hnarrows
  · rw [if_pos heq]
    rfl
  · rw [if_neg hnarrows.ne, if_pos (.inl hnarrows)]
    rfl

/-- **Tags match by how far they go together.**  Of two tags other than the wildcard, the first one
matches the second exactly if they are equal, as its family if one of them narrows the other down,
and not at all otherwise.  So it does not matter which of them is the preference, and a tag matches
whatever goes on from a tag that goes on from it. -/
theorem matching_by_extension (ha : a.isWildcard = false) (hb : b.isWildcard = false) :
    (a.specificity b = some .exact ↔ a = b) ∧
    (a.specificity b = some .family ↔ b.Narrows a ∨ a.Narrows b) ∧
    (a.specificity b = none ↔ a ≠ b ∧ ¬ (b.Narrows a ∨ a.Narrows b)) ∧
    b.specificity a = a.specificity b ∧
    ∀ c, b.Extends a → c.Extends b → (a.specificity c).isSome = true := by
  have hfamily : b.Narrows a ∨ a.Narrows b → a ≠ b := by
    rintro (h | h)
    · exact h.ne
    · exact h.ne.symm
  refine ⟨?_, ?_, ?_, specificity_comm ha hb, fun c hba hcb => ?_⟩
  · rw [specificity_eq ha]
    split_ifs with heq <;> simp [heq]
  · rw [specificity_eq ha]
    split_ifs with heq hnarrows
    · simp [mt hfamily (not_not.mpr heq)]
    · simp [hnarrows]
    · simp [hnarrows]
  · rw [specificity_eq ha]
    split_ifs with heq hnarrows
    · simp [heq]
    · simp [hnarrows]
    · simp [heq, hnarrows]
  · exact isSome_specificity_of_extends ha (hcb.trans hba)

/-- English as it is written in Britain. -/
def british : LanguageTag := ofTag "en-GB".toList

/-- British English in the spelling of the Oxford dictionary. -/
def oxford : LanguageTag := ofTag "en-gb-OXENDICT".toList

theorem english_matching_by_extension :
    (ofTag "EN".toList).isWildcard = false ∧ british.isWildcard = false ∧
      british.Narrows (ofTag "EN".toList) ∧ oxford.Extends british ∧
      (ofTag "EN".toList).specificity british = some .family ∧
      british.specificity (ofTag "EN".toList) = some .family ∧
      ((ofTag "EN".toList).specificity oxford).isSome = true ∧
      oxford.specificity (ofTag "en-US".toList) = none := by
  have henglish : (ofTag "EN".toList).isWildcard = false := by decide
  have hbritish : british.isWildcard = false := by decide
  have hnarrows : british.Narrows (ofTag "EN".toList) := by decide
  have hoxford : oxford.Extends british := by decide
  obtain ⟨-, hfamily, -, hcomm, hextends⟩ := matching_by_extension henglish hbritish
  have hmatch := hfamily.mpr (.inl hnarrows)
  obtain ⟨-, -, hnone, -, -⟩ :=
    matching_by_extension (a := oxford) (b := ofTag "en-US".toList) (by decide) (by decide)
  exact ⟨henglish, hbritish, hnarrows, hoxford, hmatch, hcomm.trans hmatch,
    hextends oxford hnarrows.toExtends hoxford, hnone.mpr (by decide)⟩

end LanguageTag

end ContentNegotiation
