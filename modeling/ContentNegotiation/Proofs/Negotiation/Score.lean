import ContentNegotiation.Negotiation.Score
import ContentNegotiation.Proofs.Preference.Quality
import Mathlib.Data.List.Induction

/-!
# What a score says

The score on an axis is a running best over the matching entries, with constants where nothing is to
be compared.  Read without the fold:

* `AxisScore.Tops` — a best match: one of the matches, and none has a higher quality, or the same
  quality and a greater specificity.
* `AxisScore.Admits` — what an axis demands of a value: if the list names anything but wildcards, a
  value that is set is matched by an entry of quality above zero.
* `Preferences.Admits` — the same on all four axes.

Principal results: `AxisScore.rejects_of_eq_false_iff` (an axis rejects what it does not admit),
`Negotiator.acceptable_iff` (a variant is acceptable if it is admitted on every axis) and
`Negotiator.total_nonNegative` (a total is never below zero and always a number).
-/

namespace ContentNegotiation

namespace AxisScore

/-! ## The best match -/

/-- One of the matches seen so far.  None of them has a higher quality, and none of the same quality
is more specific. -/
structure Tops (seen : List (Single × Specificity)) (best : Single × Specificity) : Prop where
  mem : best ∈ seen
  highest : ∀ h ∈ seen, h.1.exact ≤ best.1.exact
  closest : ∀ h ∈ seen, h.1.exact = best.1.exact → h.2.rank ≤ best.2.rank

section Best

variable {seen : List (Single × Specificity)} {best new : Single × Specificity}

theorem better_iff (hbest : best.1 ≠ .nan) (hnew : new.1 ≠ .nan) :
    better new best = true ↔ best.1.exact < new.1.exact ∨
      best.1.exact = new.1.exact ∧ best.2.rank < new.2.rank := by
  rw [better, Bool.or_eq_true, Bool.and_eq_true, Binary.less_iff hbest hnew,
    Binary.sameValue_iff hnew hbest, Specificity.below, decide_eq_true_eq,
    eq_comm (a := new.1.exact)]

theorem tops_keepBetter (h : Tops seen best) (hbest : best.1 ≠ .nan) (hnew : new.1 ≠ .nan) :
    ∃ next, keepBetter (some best) new = some next ∧ Tops (seen ++ [new]) next := by
  have hiff := better_iff hbest hnew
  cases hb : better new best with
  | true =>
      have habove := hiff.mp hb
      refine ⟨new, by simp [keepBetter, hb], by simp, ?_, ?_⟩
      · intro x hx
        rcases List.mem_append.mp hx with hx | hx
        · have := h.highest x hx
          omega
        · rw [List.mem_singleton.mp hx]
      · intro x hx hsame
        rcases List.mem_append.mp hx with hx | hx
        · -- as high as the new best, so as high as the old one, which was less specific
          have hle := h.highest x hx
          have hclose := h.closest x hx
          omega
        · rw [List.mem_singleton.mp hx]
  | false =>
      have hbelow := hiff.not.mp (Bool.eq_false_iff.mp hb)
      refine ⟨best, by simp [keepBetter, hb], List.mem_append_left _ h.mem, ?_, ?_⟩
      · intro x hx
        rcases List.mem_append.mp hx with hx | hx
        · exact h.highest x hx
        · rw [List.mem_singleton.mp hx]
          omega
      · intro x hx hsame
        rcases List.mem_append.mp hx with hx | hx
        · exact h.closest x hx hsame
        · rw [List.mem_singleton.mp hx] at hsame ⊢
          omega

/-- The fold ends with a best match, if there is any match. -/
theorem tops_foldl {hs : List (Single × Specificity)} (hne : hs ≠ [])
    (hnum : ∀ h ∈ hs, h.1 ≠ .nan) :
    ∃ best, hs.foldl keepBetter none = some best ∧ Tops hs best := by
  induction hs using List.reverseRecOn with
  | nil => exact absurd rfl hne
  | append_singleton hs new ih =>
      rw [List.foldl_append]
      by_cases hnil : hs = []
      · subst hnil
        exact ⟨new, rfl, by simp, by simp, by simp⟩
      · obtain ⟨best, hbest, htops⟩ := ih hnil fun h hh => hnum h (List.mem_append_left _ hh)
        rw [hbest]
        exact tops_keepBetter htops (hnum best (List.mem_append_left _ htops.mem))
          (hnum new (by simp))

end Best

/-! ## One axis -/

section Axis

variable {α : Type} [AxisValue α] {l : AcceptList α} {v : α}

theorem mem_hits_iff {h : Single × Specificity} :
    h ∈ hits l v ↔ ∃ e ∈ l, ∃ s, AxisValue.specificity e.value v = some s ∧
      h = (e.quality.value, s) := by
  simp [hits, List.mem_filterMap, eq_comm]

theorem ne_nan_of_mem_hits {h : Single × Specificity} (hh : h ∈ hits l v) : h.1 ≠ .nan := by
  obtain ⟨e, -, s, -, rfl⟩ := mem_hits_iff.mp hh
  exact e.quality.ne_nan

/-- A value that is not set is neutral, whatever is accepted. -/
theorem of_none (accepted : Option (AcceptList α)) : AxisScore.of accepted none = neutral := by
  rcases accepted with - | ⟨- | ⟨e, l⟩⟩ <;> rfl

/-- The three ways to a score: nothing to compare, no match, or a best match. -/
theorem of_cases (accepted : Option (AcceptList α)) (value : Option α) :
    (AxisScore.of accepted value = neutral ∧ (accepted.getD [] = [] ∨ value = none)) ∨
    ∃ l v, accepted = some l ∧ value = some v ∧
      ((AxisScore.of accepted value = unmatched ∧ hits l v = []) ∨
        ∃ best, AxisScore.of accepted value = ⟨best.1, some best.2⟩ ∧ Tops (hits l v) best) := by
  cases accepted with
  | none => exact Or.inl ⟨rfl, Or.inl rfl⟩
  | some l =>
      cases l with
      | nil => exact Or.inl ⟨rfl, Or.inl rfl⟩
      | cons e l =>
          cases value with
          | none => exact Or.inl ⟨rfl, Or.inr rfl⟩
          | some v =>
              refine Or.inr ⟨e :: l, v, rfl, rfl, ?_⟩
              by_cases hne : hits (e :: l) v = []
              · left
                refine ⟨?_, hne⟩
                rw [AxisScore.of, hne]
                rfl
              · right
                obtain ⟨best, hbest, htops⟩ := tops_foldl hne fun h => ne_nan_of_mem_hits
                refine ⟨best, ?_, htops⟩
                rw [AxisScore.of, hbest]

/-- Every quality of an axis is that of a stated weight, or one of the constants. -/
theorem exists_quality (accepted : Option (AcceptList α)) (value : Option α) :
    ∃ q : Quality, (AxisScore.of accepted value).quality = q.value := by
  rcases of_cases accepted value with ⟨h, -⟩ | ⟨l, v, -, -, ⟨h, -⟩ | ⟨best, h, htops⟩⟩
  · exact ⟨.highest, by rw [h]; rfl⟩
  · exact ⟨.lowest, by rw [h]; rfl⟩
  · obtain ⟨e, -, s, -, hbest⟩ := mem_hits_iff.mp htops.mem
    exact ⟨e.quality, by rw [h, hbest]⟩

/-- What an axis demands of a value: if some entry of the list is not a wildcard and the value is
set, then an entry of quality above zero matches it. -/
def Admits (accepted : Option (AcceptList α)) (value : Option α) : Prop :=
  ∀ l, accepted = some l → (∃ e ∈ l, AxisValue.isWildcard e.value = false) →
    ∀ v, value = some v →
      ∃ e ∈ l, 0 < e.quality.value.value ∧ (AxisValue.specificity e.value v).isSome

theorem zero_less_iff (q : Quality) : Binary.zero.less q.value = true ↔ 0 < q.value.exact := by
  rw [Binary.less_iff Binary.zero_ne_nan q.ne_nan, Binary.exact_zero]

theorem exists_hit_pos_iff :
    (∃ h ∈ hits l v, 0 < h.1.exact) ↔
      ∃ e ∈ l, 0 < e.quality.value.value ∧ (AxisValue.specificity e.value v).isSome := by
  constructor
  · rintro ⟨h, hh, hpos⟩
    obtain ⟨e, he, s, hs, rfl⟩ := mem_hits_iff.mp hh
    exact ⟨e, he, Binary.value_pos_iff.mpr hpos, Option.isSome_iff_exists.mpr ⟨s, hs⟩⟩
  · rintro ⟨e, he, hpos, hsome⟩
    obtain ⟨s, hs⟩ := Option.isSome_iff_exists.mp hsome
    exact ⟨_, mem_hits_iff.mpr ⟨e, he, s, hs, rfl⟩, Binary.value_pos_iff.mp hpos⟩

theorem Tops.exact_pos_iff {hs : List (Single × Specificity)} {best : Single × Specificity}
    (h : Tops hs best) : 0 < best.1.exact ↔ ∃ x ∈ hs, 0 < x.1.exact := by
  constructor
  · intro hpos
    exact ⟨best, h.mem, hpos⟩
  · rintro ⟨x, hx, hpos⟩
    have hle := h.highest x hx
    omega

/-- Where there is something to compare, the score is above zero if an entry above zero matches. -/
theorem zero_less_quality_iff (hl : l ≠ []) :
    Binary.zero.less (AxisScore.of (some l) (some v)).quality = true ↔
      ∃ e ∈ l, 0 < e.quality.value.value ∧ (AxisValue.specificity e.value v).isSome := by
  rw [← exists_hit_pos_iff]
  rcases of_cases (some l) (some v) with ⟨-, hnil | hnone⟩ | ⟨l', v', hl', hv', hcases⟩
  · exact absurd hnil hl
  · cases hnone
  · obtain rfl : l = l' := Option.some.inj hl'
    obtain rfl : v = v' := Option.some.inj hv'
    rcases hcases with ⟨h, hnohits⟩ | ⟨best, h, htops⟩
    · rw [h, hnohits]
      exact iff_of_false (by decide) (by simp)
    · rw [h, ← htops.exact_pos_iff]
      obtain ⟨e, -, s, -, hbest⟩ := mem_hits_iff.mp htops.mem
      rw [hbest]
      exact zero_less_iff e.quality

/-- **An axis rejects what it does not admit.** -/
theorem rejects_of_eq_false_iff (accepted : Option (AcceptList α)) (value : Option α) :
    rejects accepted (AxisScore.of accepted value) = false ↔ Admits accepted value := by
  have hneutral : Binary.zero.less neutral.quality = true := by decide
  cases accepted with
  | none => exact iff_of_true rfl fun l hl => nomatch hl
  | some l =>
      cases value with
      | none =>
          refine iff_of_true ?_ fun _ _ _ v hv => nomatch hv
          rw [rejects, of_none, hneutral, Bool.not_true, Bool.and_false]
      | some v =>
          have hconcrete : AcceptList.hasConcreteEntry l = true ↔
              ∃ e ∈ l, AxisValue.isWildcard e.value = false := by
            simp [AcceptList.hasConcreteEntry]
          rw [rejects, Option.any_some, Bool.and_eq_false_imp, hconcrete, Bool.not_eq_false']
          constructor
          · rintro h l' hl' ⟨e, he, hwild⟩ v' hv'
            obtain rfl : l = l' := Option.some.inj hl'
            obtain rfl : v = v' := Option.some.inj hv'
            exact (zero_less_quality_iff (List.ne_nil_of_mem he)).mp (h ⟨e, he, hwild⟩)
          · rintro h ⟨e, he, hwild⟩
            exact (zero_less_quality_iff (List.ne_nil_of_mem he)).mpr
              (h l rfl ⟨e, he, hwild⟩ v rfl)

end Axis

end AxisScore

/-! ## All axes -/

/-- Every axis admits its value. -/
structure Preferences.Admits (accepted : Preferences) (v : AxisValues) : Prop where
  mediaType : AxisScore.Admits accepted.mediaType v.mediaType
  language : AxisScore.Admits accepted.language v.language
  charset : AxisScore.Admits accepted.charset v.charset
  coding : AxisScore.Admits accepted.coding v.coding

theorem Preferences.admits_iff_get {accepted : Preferences} {values : AxisValues} :
    accepted.Admits values ↔ ∀ a, AxisScore.Admits (accepted.get a) (values.get a) := by
  rw [Axis.forall_iff]
  exact ⟨fun h => ⟨h.1, h.2, h.3, h.4⟩, fun ⟨hm, hl, hc, ho⟩ => ⟨hm, hl, hc, ho⟩⟩

namespace Negotiator

theorem axes_get_score (n : Negotiator) (accepted : Preferences) (v : Variant) (a : Axis) :
    (n.score accepted v).axes.get a = AxisScore.of (accepted.get a) (v.values.get a) := by
  cases a <;> rfl

theorem acceptable_iff_rejects (n : Negotiator) (accepted : Preferences) (v : Variant) :
    (n.score accepted v).acceptable = true ↔ ∀ a,
      AxisScore.rejects (accepted.get a) (AxisScore.of (accepted.get a) (v.values.get a)) =
        false := by
  rw [Axis.forall_iff]
  simp [score, PerAxis.zipWith, PerAxis.toList, PerAxis.get]

/-- **A variant is acceptable if every axis admits it.** -/
theorem acceptable_iff (n : Negotiator) (accepted : Preferences) (v : Variant) :
    (n.score accepted v).acceptable = true ↔ accepted.Admits v.values := by
  rw [acceptable_iff_rejects, Preferences.admits_iff_get]
  exact forall_congr' fun a => AxisScore.rejects_of_eq_false_iff _ _

end Negotiator

/-! ## The total -/

namespace Weights

/-- Every weight can be used. -/
structure AllUsable (w : Weights) : Prop where
  mediaType : usable w.mediaType = true
  language : usable w.language = true
  charset : usable w.charset = true
  coding : usable w.coding = true

theorem nonNegative_of_usable {x : Single} (h : usable x = true) :
    x.NonNegative ∧ x.isFinite = true := by
  rw [usable, Bool.and_eq_true, Bool.not_eq_true'] at h
  obtain ⟨hfin, hless⟩ := h
  have hnum := Binary.ne_nan_of_isFinite hfin
  have hnot := (Binary.less_iff hnum Binary.zero_ne_nan).not.mp (Bool.eq_false_iff.mp hless)
  rw [Binary.exact_zero] at hnot
  exact ⟨⟨hnum, Int.not_lt.mp hnot⟩, hfin⟩

theorem term_nonNegative {weight : Single} (h : usable weight = true) (q : Quality) :
    (weight * q.value).NonNegative := by
  obtain ⟨hnonneg, hfin⟩ := nonNegative_of_usable h
  exact hnonneg.mul q.nonNegative hfin q.isFinite

theorem combine_nonNegative {w : Weights} (hw : w.AllUsable) (q : PerAxis fun _ => Quality) :
    (w.combine (q.map Quality.value)).NonNegative :=
  (((term_nonNegative hw.mediaType q.mediaType).add (term_nonNegative hw.language q.language)).add
    (term_nonNegative hw.charset q.charset)).add (term_nonNegative hw.coding q.coding)

end Weights

namespace Negotiator

theorem allUsable (n : Negotiator) : n.settings.weights.AllUsable := by
  have h := n.sound
  rw [Settings.firstFault, Option.or_eq_none_iff, Settings.weightFault,
    List.findSome?_eq_none_iff] at h
  have hfault := h.1
  obtain ⟨hm, hl, hc, ho⟩ := by simpa [PerAxis.toList] using hfault
  exact ⟨hm, hl, hc, ho⟩

/-- A total combines four qualities. -/
theorem exists_qualities (n : Negotiator) (accepted : Preferences) (v : Variant) :
    ∃ q : PerAxis fun _ => Quality,
      (n.score accepted v).axes.map AxisScore.quality = q.map Quality.value ∧
      (n.score accepted v).total = n.settings.weights.combine (q.map Quality.value) := by
  obtain ⟨qm, hm⟩ := AxisScore.exists_quality accepted.mediaType v.values.mediaType
  obtain ⟨ql, hl⟩ := AxisScore.exists_quality accepted.language v.values.language
  obtain ⟨qc, hc⟩ := AxisScore.exists_quality accepted.charset v.values.charset
  obtain ⟨qo, ho⟩ := AxisScore.exists_quality accepted.coding v.values.coding
  have haxes : (n.score accepted v).axes.map AxisScore.quality =
      PerAxis.map (F := fun _ => Quality) Quality.value ⟨qm, ql, qc, qo⟩ := by
    simp only [PerAxis.map, score, PerAxis.zipWith, hm, hl, hc, ho]
  exact ⟨⟨qm, ql, qc, qo⟩, haxes, congrArg n.settings.weights.combine haxes⟩

/-- **A total is a number and never below zero**, though it may be infinite. -/
theorem total_nonNegative (n : Negotiator) (accepted : Preferences) (v : Variant) :
    (n.score accepted v).total.NonNegative := by
  obtain ⟨q, -, htotal⟩ := n.exists_qualities accepted v
  rw [htotal]
  exact Weights.combine_nonNegative n.allUsable q

end Negotiator

end ContentNegotiation
