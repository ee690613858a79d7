import ContentNegotiation.Proofs.Negotiation.Total
import ContentNegotiation.Proofs.Negotiation.Variant

/-!
# What cannot lower a score

A client that wants a value more, or states one more, never scores a variant lower for it, and a
variant that leaves an axis open is scored on it as high as can be.

* `AcceptList.Raises` — a list has, for every entry of another, one of the same value and no lower
  quality.
* `Variant.clear` — a variant without its value on one axis.
* `VariantScore.AtMost` — no quality of a score is above that of another, and neither is the total.

Principal results: `AcceptList.Raises.quality_le` (a raised list scores no lower),
`AcceptList.Raises.admits` (and admits as much, if it names nothing new), together
`Negotiator.score_monotone`.
-/

namespace ContentNegotiation

/-! ## One axis -/

section Axis

variable {α : Type} {l l' : AcceptList α}

/-- Every entry of the first list has one in the second with the same value and no lower quality. -/
def AcceptList.Raises (l l' : AcceptList α) : Prop :=
  ∀ e ∈ l, ∃ e' ∈ l', e'.value = e.value ∧ e.quality.value.value ≤ e'.quality.value.value

namespace AcceptList

theorem raises_replace (before after : AcceptList α) {e : Entry α} {q : Quality}
    (h : e.quality.value.value ≤ q.value.value) :
    Raises (before ++ e :: after) (before ++ ⟨e.value, q⟩ :: after) := by
  intro x hx
  rcases List.mem_append.mp hx with hx | hx
  · exact ⟨x, List.mem_append_left _ hx, rfl, le_rfl⟩
  · rcases List.mem_cons.mp hx with rfl | hx
    · exact ⟨⟨x.value, q⟩, by simp, rfl, h⟩
    · exact ⟨x, by simp [hx], rfl, le_rfl⟩

/-- A replaced quality names no new value. -/
theorem exists_value_of_mem_replace {before after : AcceptList α} {e e' : Entry α} {q : Quality}
    (h : e' ∈ before ++ ⟨e.value, q⟩ :: after) :
    ∃ x ∈ before ++ e :: after, x.value = e'.value := by
  rcases List.mem_append.mp h with h | h
  · exact ⟨e', List.mem_append_left _ h, rfl⟩
  · rcases List.mem_cons.mp h with rfl | h
    · exact ⟨e, by simp, rfl⟩
    · exact ⟨e', by simp [h], rfl⟩

theorem raises_append (l more : AcceptList α) : Raises l (l ++ more) :=
  fun x hx => ⟨x, List.mem_append_left _ hx, rfl, le_rfl⟩

end AcceptList

variable [AxisValue α]

namespace AxisScore

theorem quality_nonneg (accepted : Option (AcceptList α)) (value : Option α) :
    0 ≤ (AxisScore.of accepted value).quality.value := by
  obtain ⟨q, hq⟩ := exists_quality accepted value
  rw [hq]
  exact q.value_nonneg

/-- Nothing scores higher than what is not asked for. -/
theorem quality_le_of_none (accepted accepted' : Option (AcceptList α)) (value : Option α) :
    (AxisScore.of accepted value).quality.value ≤ (AxisScore.of accepted' none).quality.value := by
  obtain ⟨q, hq⟩ := exists_quality accepted value
  rw [hq, of_none]
  have hone : neutral.quality.value = 1 := by decide +kernel
  rw [hone]
  exact q.value_le_one

end AxisScore

namespace AcceptList.Raises

open AxisScore

/-- **A raised list scores no lower**, unless it is the empty list that is raised. -/
theorem quality_le (h : l.Raises l') (hl : l ≠ []) (value : Option α) :
    (AxisScore.of (some l) value).quality.value ≤ (AxisScore.of (some l') value).quality.value := by
  cases value with
  | none => exact quality_le_of_none _ _ _
  | some v =>
      rcases of_cases (some l) (some v) with ⟨-, hnil | hnone⟩ | ⟨_, _, ⟨⟩, ⟨⟩, hcases⟩
      · exact absurd hnil hl
      · cases hnone
      rcases hcases with ⟨hscore, -⟩ | ⟨best, hscore, htops⟩
      · have hzero : unmatched.quality.value = 0 := by decide +kernel
        rw [hscore, hzero]
        exact quality_nonneg _ _
      · -- the best match of the first list has its counterpart in the second
        obtain ⟨e, he, s, hs, rfl⟩ := mem_hits_iff.mp htops.mem
        obtain ⟨e', he', hvalue, hle⟩ := h e he
        have hhit : (e'.quality.value, s) ∈ hits l' v :=
          mem_hits_iff.mpr ⟨e', he', s, by rw [hvalue, hs], rfl⟩
        rw [hscore]
        rcases of_cases (some l') (some v) with ⟨-, hnil | hnone⟩ | ⟨_, _, ⟨⟩, ⟨⟩, hcases⟩
        · exact absurd hnil (List.ne_nil_of_mem he')
        · cases hnone
        rcases hcases with ⟨-, hnohits⟩ | ⟨best', hscore', htops'⟩
        · rw [hnohits] at hhit
          cases hhit
        · rw [hscore']
          exact hle.trans (Binary.value_le_iff.mpr (htops'.highest _ hhit))

/-- **A raised list admits what the list admits**, if it names no value that the list does not. -/
theorem admits (h : l.Raises l') (hvalues : ∀ e' ∈ l', ∃ e ∈ l, e.value = e'.value)
    {value : Option α} (hadmits : Admits (some l) value) : Admits (some l') value := by
  rintro _ ⟨⟩ ⟨e', he', hwild⟩ v hv
  obtain ⟨e, he, hsame⟩ := hvalues e' he'
  obtain ⟨x, hx, hpos, hhit⟩ := hadmits l rfl ⟨e, he, hsame ▸ hwild⟩ v hv
  obtain ⟨x', hx', hvalue, hle⟩ := h x hx
  exact ⟨x', hx', hpos.trans_le hle, hvalue ▸ hhit⟩

end AcceptList.Raises

end Axis

/-! ## All axes -/

theorem AxisValues.each_iff_get {P : {α : Type} → [AxisValue α] → α → Prop} {values : AxisValues} :
    values.Each P ↔ ∀ a, ∀ x ∈ values.get a, P x := by
  rw [Axis.forall_iff]
  exact ⟨fun h => ⟨h.1, h.2, h.3, h.4⟩, fun ⟨hm, hl, hc, ho⟩ => ⟨hm, hl, hc, ho⟩⟩

/-- Nothing is wrong with a value that is not there. -/
theorem Variant.firstFault_clear (v : Variant) (a : Axis) :
    AxisValues.firstFault (v.values.set a none) = none := by
  have heach := AxisValues.each_iff_get.mp (AxisValues.firstFault_eq_none_iff_each.mp v.sound)
  rw [AxisValues.firstFault_eq_none_iff_each, AxisValues.each_iff_get]
  refine PerAxis.forall_get_set (F := Option) (P := fun b x => ∀ y ∈ x,
    AxisValue.isWellFormed y = true ∧ AxisValue.isConcrete y = true) ?_ fun b _ => heach b
  intro y hy
  cases hy

/-- The variant without its value on one axis. -/
def Variant.clear (v : Variant) (a : Axis) : Variant :=
  ⟨v.values.set a none, v.firstFault_clear a⟩

/-- No quality is above its counterpart, and neither is the total. -/
structure VariantScore.AtMost (s t : VariantScore) : Prop where
  axes : ∀ a, (s.axes.get a).quality.atMost (t.axes.get a).quality = true
  total : s.total.atMost t.total = true

namespace Negotiator

variable {p p' : Preferences} {v v' : Variant}

/-- **Scores are compared axis by axis**: the total follows. -/
theorem score_atMost (n : Negotiator)
    (h : ∀ a, (AxisScore.of (p.get a) (v.values.get a)).quality.value ≤
      (AxisScore.of (p'.get a) (v'.values.get a)).quality.value) :
    (n.score p v).AtMost (n.score p' v') := by
  constructor
  case axes =>
    intro a
    rw [axes_get_score, axes_get_score]
    obtain ⟨q, hq⟩ := AxisScore.exists_quality (p.get a) (v.values.get a)
    obtain ⟨q', hq'⟩ := AxisScore.exists_quality (p'.get a) (v'.values.get a)
    have hle := h a
    rw [hq, hq'] at hle ⊢
    exact (Binary.atMost_iff q.ne_nan q'.ne_nan).mpr (Binary.value_le_iff.mp hle)
  case total =>
    have hmono : (n.score p v).total.value ≤ (n.score p' v').total.value :=
      total_mono ⟨h .mediaType, h .language, h .charset, h .coding⟩
    exact (Binary.atMost_iff (n.total_nonNegative p v).ne_nan (n.total_nonNegative p' v').ne_nan).mpr
      (Binary.value_le_iff.mp hmono)

section Change

variable {a : Axis}

/-- Only the axis whose list is replaced has to be compared. -/
theorem score_set_atMost (n : Negotiator) {accepted : Option (AcceptList a.Value)}
    (h : (AxisScore.of (p.get a) (v.values.get a)).quality.value ≤
      (AxisScore.of accepted (v.values.get a)).quality.value) :
    (n.score p v).AtMost (n.score (p.set a accepted) v) := by
  refine n.score_atMost (PerAxis.forall_get_set (F := fun α => Option (AcceptList α))
    (P := fun b x => (AxisScore.of (p.get b) (v.values.get b)).quality.value ≤
      (AxisScore.of x (v.values.get b)).quality.value) h ?_)
  intro b _
  exact le_rfl

theorem score_clear_atMost (n : Negotiator) (p : Preferences) (v : Variant) (a : Axis) :
    (n.score p v).AtMost (n.score p (v.clear a)) := by
  refine n.score_atMost (PerAxis.forall_get_set (F := Option)
    (P := fun b x => (AxisScore.of (p.get b) (v.values.get b)).quality.value ≤
      (AxisScore.of (p.get b) x).quality.value) (AxisScore.quality_le_of_none _ _ _) ?_)
  intro b _
  exact le_rfl

/-- An axis admits a variant that leaves it open. -/
theorem acceptable_clear (n : Negotiator) (h : (n.score p v).acceptable = true) (a : Axis) :
    (n.score p (v.clear a)).acceptable = true := by
  rw [acceptable_iff, Preferences.admits_iff_get] at h ⊢
  refine PerAxis.forall_get_set (F := Option) (P := fun b x => AxisScore.Admits (p.get b) x) ?_
    fun b _ => h b
  intro l _ _ x hx
  cases hx

end Change

/-- **Scores only rise.**  Raising the quality of one entry lowers neither a quality of an axis nor
the total, and keeps what is acceptable so.  Adding an entry to a list that is not empty lowers
neither a quality nor the total.  Clearing an axis of the variant lowers neither and keeps it
acceptable. -/
theorem score_monotone (n : Negotiator) (p : Preferences) (v : Variant) (a : Axis) :
    (∀ before e after (q : Quality), p.get a = some (before ++ e :: after) →
      e.quality.value.atMost q.value = true →
      (n.score p v).AtMost (n.score (p.set a (some (before ++ ⟨e.value, q⟩ :: after))) v) ∧
      ((n.score p v).acceptable = true →
        (n.score (p.set a (some (before ++ ⟨e.value, q⟩ :: after))) v).acceptable = true)) ∧
    (∀ l e, p.get a = some l → l ≠ [] →
      (n.score p v).AtMost (n.score (p.set a (some (l ++ [e]))) v)) ∧
    (n.score p v).AtMost (n.score p (v.clear a)) ∧
    ((n.score p v).acceptable = true → (n.score p (v.clear a)).acceptable = true) := by
  refine ⟨?_, ?_, n.score_clear_atMost p v a, fun h => n.acceptable_clear h a⟩
  · intro before e after q hlist hq
    have hle : e.quality.value.value ≤ q.value.value :=
      Binary.value_le_iff.mpr ((Binary.atMost_iff e.quality.ne_nan q.ne_nan).mp hq)
    have hraises := AcceptList.raises_replace before after hle
    constructor
    · refine n.score_set_atMost ?_
      rw [hlist]
      exact hraises.quality_le (by simp) _
    · intro h
      rw [acceptable_iff, Preferences.admits_iff_get] at h ⊢
      refine PerAxis.forall_get_set (F := fun α => Option (AcceptList α))
        (P := fun b x => AxisScore.Admits x (v.values.get b)) ?_ fun b _ => h b
      have hadmits := h a
      rw [hlist] at hadmits
      exact hraises.admits (fun _ => AcceptList.exists_value_of_mem_replace) hadmits
  · intro l e hlist hl
    refine n.score_set_atMost ?_
    rw [hlist]
    exact (AcceptList.raises_append l [e]).quality_le hl _

end Negotiator

/-! ### Plain text, wanted more and more -/

namespace Raised

def oneFifth : Quality := ⟨Binary.ofRatio .single 1 5, by decide, by decide⟩

def entry : Entry MediaType := ⟨.textPlain, oneFifth⟩

def accepted : Preferences :=
  { Preferences.unset with mediaType := some [⟨.textHtml, .highest⟩, entry] }

def plain : Variant := ⟨⟨some .textPlain, none, some .latin1, none⟩, by decide⟩

/-- Plain text is acceptable, and stays so with a higher quality and without its media type. -/
theorem plain_score_monotone :
    oneFifth.value.atMost Quality.highest.value = true ∧
      [⟨.textHtml, .highest⟩, entry] ≠ ([] : AcceptList MediaType) ∧
      (Negotiator.standard.score accepted plain).AtMost (Negotiator.standard.score
        (accepted.set .mediaType (some [⟨.textHtml, .highest⟩, ⟨.textPlain, .highest⟩])) plain) ∧
      (Negotiator.standard.score
        (accepted.set .mediaType (some [⟨.textHtml, .highest⟩, ⟨.textPlain, .highest⟩]))
          plain).acceptable = true ∧
      (Negotiator.standard.score accepted plain).AtMost (Negotiator.standard.score
        (accepted.set .mediaType (some [⟨.textHtml, .highest⟩, entry, ⟨.all, .lowest⟩])) plain) ∧
      (Negotiator.standard.score accepted (plain.clear .mediaType)).acceptable = true := by
  have hle : oneFifth.value.atMost Quality.highest.value = true := by decide
  have hne : [⟨.textHtml, .highest⟩, entry] ≠ ([] : AcceptList MediaType) := by simp
  have hacceptable : (Negotiator.standard.score accepted plain).acceptable = true := by
    decide +kernel
  obtain ⟨hraise, happend, -, hclear⟩ :=
    Negotiator.score_monotone .standard accepted plain .mediaType
  obtain ⟨hatmost, hkept⟩ := hraise [⟨.textHtml, .highest⟩] entry [] .highest rfl hle
  exact ⟨hle, hne, hatmost, hkept hacceptable, happend _ ⟨.all, .lowest⟩ rfl hne,
    hclear hacceptable⟩

end Raised

end ContentNegotiation
