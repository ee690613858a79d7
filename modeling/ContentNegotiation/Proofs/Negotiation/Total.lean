import ContentNegotiation.Negotiation.Selection
import ContentNegotiation.Proofs.Negotiation.Score
import ContentNegotiation.Proofs.Number.Arithmetic

/-!
# The total of four qualities

A total is a weighted sum, rounded after each step.  It never falls where the qualities do not, and
with the standard weights it stays within one and a half millionths of the exact sum, so that a lead
in the exact sums by more than three millionths decides between two totals.

The standard weights favour language and media type without putting them first: a lead there can be
outvoted by character set and content coding (`Outvoted.lead_outvoted`).

Principal results: `Weights.combine_mono`, `Weights.standard_near` and
`Negotiator.standard_lead_decides`.
-/

namespace ContentNegotiation

/-- No number of the first family is above its counterpart in the second. -/
structure PerAxis.AtMost (x y : PerAxis fun _ => Single) : Prop where
  mediaType : x.mediaType.value ≤ y.mediaType.value
  language : x.language.value ≤ y.language.value
  charset : x.charset.value ≤ y.charset.value
  coding : x.coding.value ≤ y.coding.value

namespace Quality

theorem value_le_one (q : Quality) : q.value.value ≤ 1 := by
  have hle := (Binary.atMost_iff q.ne_nan (by decide)).mp q.le_one
  have hone : (Binary.one : Single).value = 1 := by decide +kernel
  rw [← hone]
  exact Binary.value_le_iff.mpr hle

theorem value_nonneg (q : Quality) : 0 ≤ q.value.value :=
  q.nonNegative.value_nonneg

end Quality

namespace Weights

/-! ## Terms and sums -/

section Term

variable {weight : Single}

theorem term_mono (h : usable weight = true) {q q' : Quality}
    (hq : q.value.value ≤ q'.value.value) :
    (weight * q.value).exact ≤ (weight * q'.value).exact := by
  obtain ⟨hnonneg, hfin⟩ := nonNegative_of_usable h
  exact hnonneg.mul_mono hfin q.nonNegative q.isFinite q'.nonNegative q'.isFinite
    (Binary.value_le_iff.mp hq)

theorem term_near (h : usable weight = true) (q : Quality) {e : ℕ} (he : e ≤ 128)
    (hweight : weight.value ≤ 2 ^ e) :
    |(weight * q.value).value - weight.value * q.value.value| ≤ 2 ^ e / 2 ^ 25 := by
  obtain ⟨hnonneg, hfin⟩ := nonNegative_of_usable h
  have hprod : weight.value * q.value.value ≤ 2 ^ e :=
    (mul_le_of_le_one_right hnonneg.value_nonneg q.value_le_one).trans hweight
  exact hnonneg.mul_near q.nonNegative hfin q.isFinite he hprod

end Term

variable {w : Weights}

/-- **A total does not fall where no quality does.** -/
theorem combine_mono (hw : w.AllUsable) {q q' : PerAxis fun _ => Quality}
    (h : (q.map Quality.value).AtMost (q'.map Quality.value)) :
    (w.combine (q.map Quality.value)).exact ≤ (w.combine (q'.map Quality.value)).exact := by
  have hm := term_nonNegative hw.mediaType
  have hl := term_nonNegative hw.language
  have hc := term_nonNegative hw.charset
  have ho := term_nonNegative hw.coding
  have hpair := (hm q.mediaType).add_mono (hl q.language) (hm q'.mediaType) (hl q'.language)
    (term_mono hw.mediaType h.mediaType) (term_mono hw.language h.language)
  have hthree := ((hm _).add (hl _)).add_mono (hc q.charset) ((hm _).add (hl _)) (hc q'.charset)
    hpair (term_mono hw.charset h.charset)
  exact (((hm _).add (hl _)).add (hc _)).add_mono (ho q.coding) (((hm _).add (hl _)).add (hc _))
    (ho q'.coding) hthree (term_mono hw.coding h.coding)

/-! ## The standard weights -/

theorem value_standard :
    standard.mediaType.value = 3 ∧ standard.language.value = 4 ∧ standard.charset.value = 1 ∧
      standard.coding.value = 1 := by
  decide +kernel

theorem standard_allUsable : standard.AllUsable :=
  ⟨by decide, by decide, by decide, by decide⟩

/-- **A total is near the exact sum.** -/
theorem standard_near (q : PerAxis fun _ => Quality) :
    |(standard.combine (q.map Quality.value)).value -
      (3 * q.mediaType.value.value + 4 * q.language.value.value +
        (q.charset.value.value + q.coding.value.value))| ≤ 3 / 2 / 10 ^ 6 := by
  obtain ⟨hm, hl, hc, ho⟩ := value_standard
  have husable := standard_allUsable
  have hmterm := term_nonNegative husable.mediaType q.mediaType
  have hlterm := term_nonNegative husable.language q.language
  have hcterm := term_nonNegative husable.charset q.charset
  have hoterm := term_nonNegative husable.coding q.coding
  -- the four products, up to four, four, one and one
  have hmnear := term_near husable.mediaType q.mediaType (e := 2) (by omega) (by rw [hm]; norm_num)
  have hlnear := term_near husable.language q.language (e := 2) (by omega) (by rw [hl]; norm_num)
  have hcnear := term_near husable.charset q.charset (e := 0) (by omega) (by rw [hc]; norm_num)
  have honear := term_near husable.coding q.coding (e := 0) (by omega) (by rw [ho]; norm_num)
  rw [hm] at hmnear
  rw [hl] at hlnear
  rw [hc] at hcnear
  rw [ho] at honear
  have hmle := q.mediaType.value_le_one
  have hlle := q.language.value_le_one
  have hcle := q.charset.value_le_one
  have hole := q.coding.value_le_one
  rw [abs_le] at hmnear hlnear hcnear honear
  -- the three sums, up to eight, sixteen and sixteen
  have hpair := hmterm.add_near hlterm (e := 3) (by omega) (by linarith)
  rw [abs_le] at hpair
  have hthree := (hmterm.add hlterm).add_near hcterm (e := 4) (by omega) (by linarith)
  rw [abs_le] at hthree
  have hfour := ((hmterm.add hlterm).add hcterm).add_near hoterm (e := 4) (by omega) (by linarith)
  rw [abs_le] at hfour ⊢
  show _ ≤ (standard.mediaType * q.mediaType.value + standard.language * q.language.value +
      standard.charset * q.charset.value + standard.coding * q.coding.value).value - _ ∧
    (standard.mediaType * q.mediaType.value + standard.language * q.language.value +
      standard.charset * q.charset.value + standard.coding * q.coding.value).value - _ ≤ _
  constructor <;> linarith

end Weights

namespace VariantScore

/-- What language and media type contribute under the standard weights, exactly. -/
def primary (s : VariantScore) : ℚ :=
  3 * s.axes.mediaType.quality.value + 4 * s.axes.language.quality.value

/-- What character set and content coding contribute under the standard weights, exactly. -/
def secondary (s : VariantScore) : ℚ :=
  s.axes.charset.quality.value + s.axes.coding.quality.value

end VariantScore

namespace Negotiator

variable {n : Negotiator} {accepted accepted' : Preferences}

/-- **Where no quality is greater the total is not.** -/
theorem total_mono {v v' : Variant}
    (h : ((n.score accepted v).axes.map AxisScore.quality).AtMost
      ((n.score accepted' v').axes.map AxisScore.quality)) :
    (n.score accepted v).total.value ≤ (n.score accepted' v').total.value := by
  obtain ⟨q, hq, htotal⟩ := n.exists_qualities accepted v
  obtain ⟨q', hq', htotal'⟩ := n.exists_qualities accepted' v'
  rw [hq, hq'] at h
  rw [htotal, htotal', Binary.value_le_iff]
  exact Weights.combine_mono n.allUsable h

theorem standard_total_near (accepted : Preferences) (v : Variant) :
    |(Negotiator.standard.score accepted v).total.value -
      ((Negotiator.standard.score accepted v).primary +
        (Negotiator.standard.score accepted v).secondary)| ≤ 3 / 2 / 10 ^ 6 := by
  obtain ⟨q, hq, htotal⟩ := Negotiator.standard.exists_qualities accepted v
  have hm := congrArg PerAxis.mediaType hq
  have hl := congrArg PerAxis.language hq
  have hc := congrArg PerAxis.charset hq
  have ho := congrArg PerAxis.coding hq
  simp only [PerAxis.map] at hm hl hc ho
  rw [htotal, VariantScore.primary, VariantScore.secondary, hm, hl, hc, ho]
  exact Weights.standard_near q

/-- What the secondary axes contribute is between zero and two. -/
theorem secondary_bounds (n : Negotiator) (accepted : Preferences) (v : Variant) :
    0 ≤ (n.score accepted v).secondary ∧ (n.score accepted v).secondary ≤ 2 := by
  obtain ⟨q, hq, -⟩ := n.exists_qualities accepted v
  have hc := congrArg PerAxis.charset hq
  have ho := congrArg PerAxis.coding hq
  simp only [PerAxis.map] at hc ho
  rw [VariantScore.secondary, hc, ho]
  have hcpos := q.charset.value_nonneg
  have hopos := q.coding.value_nonneg
  have hcle := q.charset.value_le_one
  have hole := q.coding.value_le_one
  constructor <;> linarith

/-- **A lead in the exact sums decides.**  With the standard weights a total is near three times the
quality of the media type and four times that of the language, with those of character set and
content coding added.  So the greater sum has the greater total, if by more than three millionths;
a lead by more than two, in language and media type alone, decides whatever the other axes say; and
a variant that is nowhere better has no greater total. -/
theorem standard_lead_decides (accepted : Preferences) :
    (∀ v, |(Negotiator.standard.score accepted v).total.value -
      ((Negotiator.standard.score accepted v).primary +
        (Negotiator.standard.score accepted v).secondary)| ≤ 3 / 2 / 10 ^ 6) ∧
    ∀ a b : Variant,
      let s := Negotiator.standard.score accepted a
      let t := Negotiator.standard.score accepted b
      (t.primary + t.secondary + 3 / 10 ^ 6 < s.primary + s.secondary →
        t.total.value < s.total.value) ∧
      (t.primary + 2 + 3 / 10 ^ 6 < s.primary → t.total.value < s.total.value) ∧
      ((t.axes.map AxisScore.quality).AtMost (s.axes.map AxisScore.quality) →
        t.total.value ≤ s.total.value) := by
  refine ⟨standard_total_near accepted, fun a b => ?_⟩
  have hanear := abs_le.mp (standard_total_near accepted a)
  have hbnear := abs_le.mp (standard_total_near accepted b)
  have hasecondary := Negotiator.standard.secondary_bounds accepted a
  have hbsecondary := Negotiator.standard.secondary_bounds accepted b
  exact ⟨fun hlead => by linarith, fun hlead => by linarith, total_mono⟩

end Negotiator

/-! ### A lead that is outvoted -/

namespace Outvoted

def oneEighth : Quality := ⟨Binary.ofRatio .single 1 8, by decide, by decide⟩
def oneQuarter : Quality := ⟨Binary.ofRatio .single 1 4, by decide, by decide⟩
def threeQuarters : Quality := ⟨Binary.ofRatio .single 3 4, by decide, by decide⟩

/-- Hypertext is wanted most, then plain text, then data; and UTF-8 far more than ASCII. -/
def accepted : Preferences :=
  { Preferences.unset with
    mediaType := some [⟨.textHtml, .highest⟩, ⟨.textPlain, threeQuarters⟩,
      ⟨.applicationJson, oneQuarter⟩]
    charset := some [⟨.utf8, .highest⟩, ⟨.ascii, oneEighth⟩] }

def hypertext : Variant := ⟨⟨some .textHtml, none, some .ascii, none⟩, by decide⟩

def plain : Variant := ⟨⟨some .textPlain, none, some .utf8, none⟩, by decide⟩

def data : Variant := ⟨⟨some .applicationJson, none, some .utf8, none⟩, by decide⟩

/-- Hypertext leads in the media type and is as good in the language, and plain text is selected: it
makes up for less than one in the weighted media type by seven eighths in the character set. -/
theorem lead_outvoted :
    (Negotiator.standard.score accepted hypertext).acceptable = true ∧
      (Negotiator.standard.score accepted plain).acceptable = true ∧
      (Negotiator.standard.score accepted hypertext).axes.language.quality =
        (Negotiator.standard.score accepted plain).axes.language.quality ∧
      (Negotiator.standard.score accepted plain).axes.mediaType.quality.value <
        (Negotiator.standard.score accepted hypertext).axes.mediaType.quality.value ∧
      (Negotiator.standard.score accepted hypertext).total.value <
        (Negotiator.standard.score accepted plain).total.value ∧
      (Negotiator.standard.select accepted [hypertext, plain] none).map Ranked.position = some 1 := by
  decide +kernel

/-- Over data hypertext leads by more than all the character set could make up for, and plain text
is nowhere behind data. -/
theorem data_loses :
    (Negotiator.standard.score accepted data).primary + 2 + 3 / 10 ^ 6 <
        (Negotiator.standard.score accepted hypertext).primary ∧
      (Negotiator.standard.score accepted data).total.value <
        (Negotiator.standard.score accepted hypertext).total.value ∧
      (Negotiator.standard.score accepted data).total.value ≤
        (Negotiator.standard.score accepted plain).total.value := by
  have hlead : (Negotiator.standard.score accepted data).primary + 2 + 3 / 10 ^ 6 <
      (Negotiator.standard.score accepted hypertext).primary := by decide +kernel
  have hbehind : ((Negotiator.standard.score accepted data).axes.map AxisScore.quality).AtMost
      ((Negotiator.standard.score accepted plain).axes.map AxisScore.quality) :=
    ⟨by decide +kernel, by decide +kernel, by decide +kernel, by decide +kernel⟩
  obtain ⟨-, hdecides⟩ := Negotiator.standard_lead_decides accepted
  exact ⟨hlead, (hdecides hypertext data).2.1 hlead, (hdecides plain data).2.2 hbehind⟩

end Outvoted

end ContentNegotiation
