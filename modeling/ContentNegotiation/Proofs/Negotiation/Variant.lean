import ContentNegotiation.Negotiation.Variant
import ContentNegotiation.Proofs.Axis.LanguageTag
import ContentNegotiation.Proofs.Axis.MediaType
import ContentNegotiation.Proofs.Axis.Name

/-!
# What a variant guarantees

Whoever holds a variant knows that no value of it is a wildcard and that its language is well
formed. The other axes have no check of their own: their values are readable if the names they were
made from are.

* `AxisValue.Readable` — the printed form of the value can be read.
* `AxisValues.Concrete` — no part of a value is a wildcard.
* `AxisValues.Made` — the three unchecked axes have values that were read, or made from parts that
  obey the grammar.
* `AxisValues.firstFault_eq_none_iff` — all that the checks amount to.

Principal results: `Variant.ofValues_sound` and `Variant.ofValues_unchecked` (without
`AxisValues.Made`, a variant can have values that cannot be read).
-/

namespace ContentNegotiation

/-! ## Readable values -/

/-- The printed form of the value can be read. -/
def AxisValue.Readable {α : Type} [AxisValue α] (v : α) : Prop :=
  ∃ w : α, AxisValue.read (AxisValue.print v) = some w

open AxisValue (Readable)

theorem LanguageTag.readable {l : LanguageTag} (h : l.isWellFormed = true) : Readable l :=
  ⟨l.normalize, read_print h⟩

theorem MediaType.Made.readable {m : MediaType} (h : m.Made) : Readable m :=
  ⟨_, h.grammatical.read_print⟩

theorem NameAxis.readable_ofName_iff {α : Type} [AxisValue α] {aliases : List (Text × Text)}
    {ofName : Text → α} (h : NameAxis α aliases ofName) {name : Text} :
    Readable (ofName name) ↔ (Text.trim name).isToken = true := by
  simp [Readable, h.read_print_ofName]

/-! ## Concrete values -/

theorem MediaType.isConcrete_iff {m : MediaType} :
    AxisValue.isConcrete m = true ↔ m.main ≠ wildcardText ∧ m.sub ≠ wildcardText := by
  show (m.main != wildcardText && m.sub != wildcardText) = true ↔ _
  simp

/-- A well-formed tag with a wildcard is the wildcard. -/
theorem LanguageTag.isConcrete_iff {l : LanguageTag} (h : l.isWellFormed = true) :
    AxisValue.isConcrete l = true ↔ l.primary ≠ wildcardText ∧ wildcardText ∉ l.subtags := by
  show (!(l.primary == wildcardText)) = true ↔ _
  rcases isWellFormed_iff.mp h with rfl | h
  · simp
  · simp [h.primary_ne_wildcard, h.wildcard_not_mem_subtags]

theorem Charset.isConcrete_iff {c : Charset} :
    AxisValue.isConcrete c = true ↔ c.name ≠ wildcardText := by
  show (!(c.name == wildcardText)) = true ↔ _
  simp

theorem ContentCoding.isConcrete_iff {c : ContentCoding} :
    AxisValue.isConcrete c = true ↔ c.name ≠ wildcardText := by
  show (!(c.name == wildcardText)) = true ↔ _
  simp

namespace AxisValues

/-! ## All axes -/

/-- Every value that is set has the property. -/
structure Each (P : {α : Type} → [AxisValue α] → α → Prop) (v : AxisValues) : Prop where
  mediaType : ∀ m, v.mediaType = some m → P m
  language : ∀ l, v.language = some l → P l
  charset : ∀ c, v.charset = some c → P c
  coding : ∀ c, v.coding = some c → P c

/-- No part of a value that is set is a wildcard. -/
structure Concrete (v : AxisValues) : Prop where
  mediaType : ∀ m, v.mediaType = some m → m.main ≠ wildcardText ∧ m.sub ≠ wildcardText
  language : ∀ l, v.language = some l → l.primary ≠ wildcardText ∧ wildcardText ∉ l.subtags
  charset : ∀ c, v.charset = some c → c.name ≠ wildcardText
  coding : ∀ c, v.coding = some c → c.name ≠ wildcardText

/-- The values of the axes without a check of their own were read, or made from parts that obey the
grammar. -/
structure Made (v : AxisValues) : Prop where
  mediaType : ∀ m, v.mediaType = some m → m.Made
  charset : ∀ c, v.charset = some c →
    ∃ name, (Text.trim name).isToken = true ∧ c = Charset.ofName name
  coding : ∀ c, v.coding = some c →
    ∃ name, (Text.trim name).isToken = true ∧ c = ContentCoding.ofName name

/-! ## The checks -/

variable {v : AxisValues}

theorem fault_eq_none_iff {α : Type} [AxisValue α] {o : Option α} :
    fault o = none ↔
      ∀ a, o = some a → AxisValue.isWellFormed a = true ∧ AxisValue.isConcrete a = true := by
  cases o with
  | none => simp [fault]
  | some a =>
      cases hw : AxisValue.isWellFormed a <;> cases hc : AxisValue.isConcrete a <;>
        simp [fault, hw, hc]

theorem firstFault_eq_none_iff_each :
    v.firstFault = none ↔
      v.Each fun a => AxisValue.isWellFormed a = true ∧ AxisValue.isConcrete a = true := by
  have hlist : v.firstFault = none ↔ fault v.mediaType = none ∧ fault v.language = none ∧
      fault v.charset = none ∧ fault v.coding = none := by
    simp [firstFault, PerAxis.map, PerAxis.toList]
  rw [hlist, fault_eq_none_iff, fault_eq_none_iff, fault_eq_none_iff, fault_eq_none_iff]
  exact ⟨fun h => ⟨h.1, h.2.1, h.2.2.1, h.2.2.2⟩,
    fun h => ⟨h.mediaType, h.language, h.charset, h.coding⟩⟩

/-- **Nothing is at fault if and only if no value has a wildcard and the language is well
formed.** -/
theorem firstFault_eq_none_iff :
    v.firstFault = none ↔
      v.Concrete ∧ ∀ l, v.language = some l → l.isWellFormed = true := by
  rw [firstFault_eq_none_iff_each]
  constructor
  · intro h
    refine ⟨⟨?_, ?_, ?_, ?_⟩, fun l hl => (h.language l hl).1⟩
    · exact fun m hm => MediaType.isConcrete_iff.mp (h.mediaType m hm).2
    · intro l hl
      obtain ⟨hwell, hconcrete⟩ := h.language l hl
      exact (LanguageTag.isConcrete_iff hwell).mp hconcrete
    · exact fun c hc => Charset.isConcrete_iff.mp (h.charset c hc).2
    · exact fun c hc => ContentCoding.isConcrete_iff.mp (h.coding c hc).2
  · rintro ⟨h, hlanguage⟩
    constructor
    -- only a language can be malformed here
    · exact fun m hm => ⟨rfl, MediaType.isConcrete_iff.mpr (h.mediaType m hm)⟩
    · intro l hl
      have hwell := hlanguage l hl
      exact ⟨hwell, (LanguageTag.isConcrete_iff hwell).mpr (h.language l hl)⟩
    · exact fun c hc => ⟨rfl, Charset.isConcrete_iff.mpr (h.charset c hc)⟩
    · exact fun c hc => ⟨rfl, ContentCoding.isConcrete_iff.mpr (h.coding c hc)⟩

end AxisValues

namespace Variant

variable {v : AxisValues} {x : Variant}

theorem values_of_ofValues (h : ofValues v = .ok x) : x.values = v := by
  unfold ofValues at h
  split at h
  · cases h
  · cases h
    rfl

theorem ofValues_eq_ok (h : v.firstFault = none) : ofValues v = .ok ⟨v, h⟩ := by
  unfold ofValues
  split
  · simp_all
  · rfl

theorem exists_error_iff : (∃ e, ofValues v = .error e) ↔ v.firstFault ≠ none := by
  unfold ofValues
  split <;> simp_all

theorem each_readable_of_made (hmade : v.Made)
    (hlanguage : ∀ l, v.language = some l → Readable l) : v.Each Readable := by
  constructor
  · exact fun m hm => (hmade.mediaType m hm).readable
  · exact hlanguage
  · intro c hc
    obtain ⟨name, hname, rfl⟩ := hmade.charset c hc
    exact Charset.nameAxis.readable_ofName_iff.mpr hname
  · intro c hc
    obtain ⟨name, hname, rfl⟩ := hmade.coding c hc
    exact ContentCoding.nameAxis.readable_ofName_iff.mpr hname

/-- **What a variant guarantees.** Its values are those that were given, none of them is a wildcard,
and its language can be read; so can all its values if the unchecked ones were made from parts that
obey the grammar. Values with a wildcard or a malformed language make no variant, and nothing else
is rejected. -/
theorem ofValues_sound (v : AxisValues) :
    (∀ x, ofValues v = .ok x →
      x.values = v ∧ v.Concrete ∧ (∀ l, v.language = some l → Readable l) ∧
        (v.Made → v.Each Readable)) ∧
    ((∃ e, ofValues v = .error e) ↔
      ¬ v.Concrete ∨ ∃ l, v.language = some l ∧ l.isWellFormed = false) := by
  constructor
  · intro x hx
    have hvalues := values_of_ofValues hx
    obtain ⟨hconcrete, hwell⟩ := AxisValues.firstFault_eq_none_iff.mp (hvalues ▸ x.sound)
    have hlanguage : ∀ l, v.language = some l → Readable l :=
      fun l hl => LanguageTag.readable (hwell l hl)
    exact ⟨hvalues, hconcrete, hlanguage, fun hmade => each_readable_of_made hmade hlanguage⟩
  · rw [exists_error_iff, ne_eq, AxisValues.firstFault_eq_none_iff, not_and_or]
    simp

/-- A page in English with a value on every axis. -/
def page : AxisValues where
  mediaType := some (MediaType.textHtml.withParameter "level".toList "1".toList)
  language := some (LanguageTag.withRegion "en".toList "us".toList)
  charset := some (Charset.ofName "UTF8".toList)
  coding := some (ContentCoding.ofName "x-gzip".toList)

theorem page_sound :
    (∃ x, ofValues page = .ok x) ∧ page.Made ∧ page.Each Readable := by
  have hbuilt := ofValues_eq_ok (v := page) (by decide)
  have hmade : page.Made := by
    constructor
    · rintro - ⟨⟩
      exact .withParameter (.ofTypes (by decide) (by decide) (by decide)) (by decide) (by decide)
    · rintro - ⟨⟩
      exact ⟨"UTF8".toList, by decide, rfl⟩
    · rintro - ⟨⟩
      exact ⟨"x-gzip".toList, by decide, rfl⟩
  obtain ⟨-, -, -, hreadable⟩ := (ofValues_sound page).1 _ hbuilt
  exact ⟨⟨_, hbuilt⟩, hmade, hreadable hmade⟩

/-- A value that cannot be read on each axis but the language. -/
def unchecked : AxisValues where
  mediaType := some (MediaType.ofTypes "text".toList "ht ml".toList)
  language := none
  charset := some (Charset.ofName "a b".toList)
  coding := some (ContentCoding.ofName "".toList)

/-- Three axes take values that cannot be read. -/
theorem ofValues_unchecked :
    (∃ x, ofValues unchecked = .ok x) ∧
      ¬ Readable (MediaType.ofTypes "text".toList "ht ml".toList) ∧
      ¬ Readable (Charset.ofName "a b".toList) ∧ ¬ Readable (ContentCoding.ofName "".toList) := by
  refine ⟨⟨_, ofValues_eq_ok (v := unchecked) (by decide)⟩, ?_, ?_, ?_⟩
  · have hread : MediaType.read (MediaType.ofTypes "text".toList "ht ml".toList).print = none := by
      decide
    rintro ⟨m, hm⟩
    cases hread.symm.trans hm
  · rw [Charset.nameAxis.readable_ofName_iff]
    decide
  · rw [ContentCoding.nameAxis.readable_ofName_iff]
    decide

end Variant

end ContentNegotiation
