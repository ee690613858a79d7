import ContentNegotiation.Proofs.Negotiation.Pass
import ContentNegotiation.Proofs.Number.ZeroSign
import Mathlib.Data.List.Forall2

/-!
# The order of entries

What counts of an accept list is which entries it has, not in which order or how often they are
stated.  The score on an axis is described without the running best, and the description speaks of
entries alone.  A restated list can at most change the sign of a zero, which nothing that is
selected depends on.

* `AxisScore.Describes` — what the score on an axis is, read off the entries.
* `Preferences.Restates` — on every axis the same entries, in any order and number.
* `Ranked.Alike` — the same variant at the same place, with the same score up to signs of zeros.

Principal results: `AxisScore.describes_of` (the score is as described), `Negotiator.score_alike`
and `Negotiator.select_alike` (restated preferences score and select alike), together
`Negotiator.order_free_best_match`.
-/

namespace ContentNegotiation

/-! ## The score on an axis -/

namespace AxisScore

variable {α : Type} [AxisValue α]

/-- The entry matches with that specificity.  No matching entry has a higher quality, and none of
the same quality is more specific. -/
structure Best (l : AcceptList α) (v : α) (e : Entry α) (s : Specificity) : Prop where
  mem : e ∈ l
  hit : AxisValue.specificity e.value v = some s
  highest : ∀ e' ∈ l, ∀ s', AxisValue.specificity e'.value v = some s' →
    e'.quality.value.value ≤ e.quality.value.value
  closest : ∀ e' ∈ l, ∀ s', AxisValue.specificity e'.value v = some s' →
    e'.quality.value.value = e.quality.value.value → s'.rank ≤ s.rank

/-- What the score on an axis is: one where there is nothing to compare, zero where no entry matches,
and otherwise that of a best entry. -/
structure Describes (accepted : Option (AcceptList α)) (value : Option α) (score : AxisScore) :
    Prop where
  unconstrained : accepted.getD [] = [] ∨ value = none → score = ⟨.one, none⟩
  unmatched : ∀ l v, accepted = some l → l ≠ [] → value = some v →
    (∀ e ∈ l, AxisValue.specificity e.value v = none) → score = ⟨.zero, none⟩
  matched : ∀ l v, accepted = some l → value = some v →
    (∃ e ∈ l, (AxisValue.specificity e.value v).isSome) →
    ∃ e s, Best l v e s ∧ score = ⟨e.quality.value, some s⟩

section Describes

variable {l : AcceptList α} {v : α}

theorem hits_eq_nil_iff :
    hits l v = [] ↔ ∀ e ∈ l, AxisValue.specificity e.value v = none := by
  simp [hits, List.filterMap_eq_nil_iff]

theorem Tops.best {b : Single × Specificity} (h : Tops (hits l v) b) :
    ∃ e, Best l v e b.2 ∧ b.1 = e.quality.value := by
  obtain ⟨e, he, s, hs, hb⟩ := mem_hits_iff.mp h.mem
  rw [hb] at h ⊢
  refine ⟨e, ⟨he, hs, ?_, ?_⟩, rfl⟩
  · intro e' he' s' hs'
    exact Binary.value_le_iff.mpr (h.highest _ (mem_hits_iff.mpr ⟨e', he', s', hs', rfl⟩))
  · intro e' he' s' hs' hsame
    exact h.closest _ (mem_hits_iff.mpr ⟨e', he', s', hs', rfl⟩) (Binary.value_eq_iff.mp hsame)

/-- **The score on an axis is as described.** -/
theorem describes_of (accepted : Option (AcceptList α)) (value : Option α) :
    Describes accepted value (AxisScore.of accepted value) := by
  have hne : neutral ≠ unmatched := by decide
  rcases of_cases accepted value with ⟨h, hnothing⟩ | ⟨l, v, rfl, rfl, hcases⟩
  · rw [h]
    refine ⟨fun _ => rfl, ?_, ?_⟩
    · rintro l v rfl hl rfl -
      rcases hnothing with hnil | hnone
      · exact absurd hnil hl
      · cases hnone
    · rintro l v rfl rfl ⟨e, he, -⟩
      rcases hnothing with hnil | hnone
      · exact absurd hnil (List.ne_nil_of_mem he)
      · cases hnone
  · have hempty : l = [] → AxisScore.of (some l) (some v) = neutral := by
      rintro rfl
      rfl
    have hfree : (some l).getD [] = [] ∨ some v = none →
        AxisScore.of (some l) (some v) = ⟨.one, none⟩ := by
      rintro (hnil | hnone)
      · exact hempty hnil
      · cases hnone
    refine ⟨hfree, ?_, ?_⟩
    · rintro l' v' ⟨⟩ - ⟨⟩ hmiss
      rcases hcases with ⟨h, -⟩ | ⟨b, -, htops⟩
      · exact h
      · have hmem := htops.mem
        rw [hits_eq_nil_iff.mpr hmiss] at hmem
        cases hmem
    · rintro l' v' ⟨⟩ ⟨⟩ ⟨e, he, hsome⟩
      rcases hcases with ⟨-, hnil⟩ | ⟨b, h, htops⟩
      · rw [hits_eq_nil_iff.mp hnil e he] at hsome
        cases hsome
      · obtain ⟨best, hbest, hquality⟩ := htops.best
        exact ⟨best, b.2, hbest, by rw [h, hquality]⟩

end Describes

/-- Scores that agree but for the sign of a zero quality. -/
structure Alike (s t : AxisScore) : Prop where
  quality : s.quality.Alike t.quality
  specificity : s.specificity = t.specificity

/-- Best entries agree in quality and specificity. -/
theorem Best.alike {l : AcceptList α} {v : α} {e e' : Entry α} {s s' : Specificity}
    (h : Best l v e s) (h' : Best l v e' s') :
    Alike ⟨e.quality.value, some s⟩ ⟨e'.quality.value, some s'⟩ := by
  have hvalue := le_antisymm (h'.highest e h.mem s h.hit) (h.highest e' h'.mem s' h'.hit)
  have hrank := Nat.le_antisymm (h'.closest e h.mem s h.hit hvalue)
    (h.closest e' h'.mem s' h'.hit hvalue.symm)
  have hspecificity : s = s' := by
    cases s <;> cases s' <;> first | rfl | cases hrank
  exact ⟨(Binary.alike_iff e.quality.ne_nan e'.quality.ne_nan).mpr (Binary.value_eq_iff.mp hvalue),
    congrArg some hspecificity⟩

/-- The description leaves nothing open but the sign of a zero. -/
theorem Describes.alike {accepted : Option (AcceptList α)} {value : Option α} {s t : AxisScore}
    (h : Describes accepted value s) (h' : Describes accepted value t) : Alike s t := by
  by_cases hfree : accepted.getD [] = [] ∨ value = none
  · rw [h.unconstrained hfree, h'.unconstrained hfree]
    exact ⟨.refl _, rfl⟩
  · obtain ⟨hne, hset⟩ := not_or.mp hfree
    obtain ⟨v, rfl⟩ := Option.ne_none_iff_exists'.mp hset
    cases accepted with
    | none => exact absurd rfl hne
    | some l =>
        by_cases hsome : ∃ e ∈ l, (AxisValue.specificity e.value v).isSome
        · obtain ⟨e, k, hbest, rfl⟩ := h.matched l v rfl rfl hsome
          obtain ⟨e', k', hbest', rfl⟩ := h'.matched l v rfl rfl hsome
          exact hbest.alike hbest'
        · have hmiss : ∀ e ∈ l, AxisValue.specificity e.value v = none := by
            intro e he
            exact Option.not_isSome_iff_eq_none.mp fun hk => hsome ⟨e, he, hk⟩
          rw [h.unmatched l v rfl hne rfl hmiss, h'.unmatched l v rfl hne rfl hmiss]
          exact ⟨.refl _, rfl⟩

end AxisScore

/-! ## Restated lists -/

/-- Both unset, or both set with the same entries, in any order and number. -/
def AcceptList.Restates {α : Type} : Option (AcceptList α) → Option (AcceptList α) → Prop :=
  Option.Rel fun l l' => ∀ e, e ∈ l ↔ e ∈ l'

/-- The list of every axis is restated. -/
structure Preferences.Restates (p q : Preferences) : Prop where
  mediaType : AcceptList.Restates p.mediaType q.mediaType
  language : AcceptList.Restates p.language q.language
  charset : AcceptList.Restates p.charset q.charset
  coding : AcceptList.Restates p.coding q.coding

theorem Preferences.Restates.get {p q : Preferences} (h : p.Restates q) :
    ∀ a, AcceptList.Restates (p.get a) (q.get a) :=
  Axis.forall_iff.mpr ⟨h.mediaType, h.language, h.charset, h.coding⟩

section Restates

variable {α : Type} {accepted accepted' : Option (AcceptList α)}

/-- Entries may change places, and some may be stated again. -/
theorem AcceptList.restates_of_perm {l l' : AcceptList α} (again : AcceptList α)
    (h : l'.Perm (l ++ again)) (hagain : again ⊆ l) : Restates (some l) (some l') := by
  refine .some fun e => ?_
  rw [h.mem_iff, List.mem_append]
  exact ⟨Or.inl, fun he => he.elim id fun he => hagain he⟩

variable [AxisValue α]

namespace AxisScore

theorem Best.congr {l l' : AcceptList α} {v : α} {e : Entry α} {s : Specificity}
    (hl : ∀ e, e ∈ l ↔ e ∈ l') (h : Best l v e s) : Best l' v e s :=
  ⟨(hl e).mp h.mem, h.hit, fun e' he' => h.highest e' ((hl e').mpr he'),
    fun e' he' => h.closest e' ((hl e').mpr he')⟩

/-- What is described is told of entries alone. -/
theorem Describes.congr (hr : AcceptList.Restates accepted accepted') {value : Option α}
    {score : AxisScore} (h : Describes accepted value score) : Describes accepted' value score := by
  cases hr with
  | none => exact h
  | @some l l' hl =>
      have hnil : l = [] ↔ l' = [] := by
        simp only [List.eq_nil_iff_forall_not_mem, hl]
      refine ⟨fun hfree => h.unconstrained (hfree.imp_left hnil.mpr), ?_, ?_⟩
      · rintro _ v ⟨⟩ hne rfl hmiss
        exact h.unmatched l v rfl (hnil.not.mpr hne) rfl fun e he => hmiss e ((hl e).mp he)
      · rintro _ v ⟨⟩ rfl ⟨e, he, hsome⟩
        obtain ⟨b, s, hbest, hscore⟩ := h.matched l v rfl rfl ⟨e, (hl e).mpr he, hsome⟩
        exact ⟨b, s, hbest.congr hl, hscore⟩

theorem of_alike (hr : AcceptList.Restates accepted accepted') (value : Option α) :
    Alike (AxisScore.of accepted value) (AxisScore.of accepted' value) :=
  ((describes_of accepted value).congr hr).alike (describes_of accepted' value)

theorem hasConcreteEntry_eq (hr : AcceptList.Restates accepted accepted') :
    accepted.any AcceptList.hasConcreteEntry = accepted'.any AcceptList.hasConcreteEntry := by
  cases hr with
  | none => rfl
  | some hl =>
      rw [Option.any_some, Option.any_some, Bool.eq_iff_iff, AcceptList.hasConcreteEntry,
        AcceptList.hasConcreteEntry, List.any_eq_true, List.any_eq_true]
      simp only [hl]

theorem rejects_eq (hconcrete : accepted.any AcceptList.hasConcreteEntry =
    accepted'.any AcceptList.hasConcreteEntry) {s t : AxisScore} (hst : Alike s t) :
    rejects accepted s = rejects accepted' t := by
  rw [rejects, rejects, hconcrete, Binary.Alike.less_eq (.refl _) hst.quality]

end AxisScore

end Restates

/-! ## Scores and candidates -/

/-- Scores that agree but for signs of zeros. -/
structure VariantScore.Alike (s t : VariantScore) : Prop where
  mediaType : s.axes.mediaType.Alike t.axes.mediaType
  language : s.axes.language.Alike t.axes.language
  charset : s.axes.charset.Alike t.axes.charset
  coding : s.axes.coding.Alike t.axes.coding
  total : s.total.Alike t.total
  acceptable : s.acceptable = t.acceptable

/-- The same variant at the same place, with a score that agrees but for signs of zeros. -/
structure Ranked.Alike (r s : Ranked) : Prop where
  position : r.position = s.position
  variant : r.variant = s.variant
  score : r.score.Alike s.score

/-- Best totals that agree but for the sign of a zero, and the same candidates in the tie. -/
structure Negotiator.Leaders.Alike (l l' : Leaders) : Prop where
  best : l.best.Alike l'.best
  tied : List.Forall₂ Ranked.Alike l.tied l'.tied

namespace Negotiator

variable {p q : Preferences}

/-- Scores are alike if they are on every axis, and the same axes are mandatory. -/
theorem score_alike_of_axes (n : Negotiator) {v : Variant}
    (hscore : ∀ a, (AxisScore.of (p.get a) (v.values.get a)).Alike
      (AxisScore.of (q.get a) (v.values.get a)))
    (hconcrete : ∀ a, (p.get a).any AcceptList.hasConcreteEntry =
      (q.get a).any AcceptList.hasConcreteEntry) : (n.score p v).Alike (n.score q v) := by
  have hquality := fun a => (hscore a).quality
  have hrejects := fun a => AxisScore.rejects_eq (hconcrete a) (hscore a)
  refine ⟨hscore .mediaType, hscore .language, hscore .charset, hscore .coding, ?_, ?_⟩
  · exact ((((hquality .mediaType).mul_left _).add ((hquality .language).mul_left _)).add
      ((hquality .charset).mul_left _)).add ((hquality .coding).mul_left _)
  · rw [Bool.eq_iff_iff, acceptable_iff_rejects, acceptable_iff_rejects]
    exact forall_congr' fun a => by rw [hrejects a]

/-- **Restated preferences score alike.** -/
theorem score_alike (n : Negotiator) (h : p.Restates q) (v : Variant) :
    (n.score p v).Alike (n.score q v) :=
  n.score_alike_of_axes (fun a => AxisScore.of_alike (h.get a) _)
    fun a => AxisScore.hasConcreteEntry_eq (h.get a)

theorem candidates_alike (n : Negotiator) (h : ∀ v, (n.score p v).Alike (n.score q v))
    (variants : List Variant) :
    List.Forall₂ Ranked.Alike (n.candidates p variants) (n.candidates q variants) := by
  have hkept : ∀ r s : Ranked, r.Alike s →
      (r.score.acceptable = true ↔ s.score.acceptable = true) :=
    fun r s hrs => by rw [hrs.score.acceptable]
  refine List.rel_filter hkept ?_
  rw [List.forall₂_map_left_iff, List.forall₂_map_right_iff, List.forall₂_same]
  intro vi _
  exact ⟨rfl, rfl, h vi.1⟩

/-! ## The pass and the selection -/

theorem Leaders.Alike.meet {l l' : Leaders} {r s : Ranked} (hl : l.Alike l') (hr : r.Alike s) :
    (l.meet r).Alike (l'.meet s) := by
  have hbeyond : (l.best + tieTolerance).less r.score.total =
      (l'.best + tieTolerance).less s.score.total :=
    (hl.best.add (.refl _)).less_eq hr.score.total
  have hwithin : (r.score.total - l.best).abs = (s.score.total - l'.best).abs :=
    (hr.score.total.sub hl.best).abs_eq
  rw [Leaders.meet, Leaders.meet, hbeyond, hwithin]
  split
  · exact ⟨hr.score.total, .cons hr .nil⟩
  · split
    · exact ⟨hl.best, List.rel_append hl.tied (.cons hr .nil)⟩
    · exact hl

theorem tied_alike (n : Negotiator) (h : ∀ v, (n.score p v).Alike (n.score q v))
    (variants : List Variant) :
    List.Forall₂ Ranked.Alike (n.tied p variants) (n.tied q variants) := by
  have hstart : Leaders.none.Alike Leaders.none := ⟨.refl _, .nil⟩
  have hpass := List.rel_foldl (fun _ _ hl _ _ hr => hl.meet hr) hstart (n.candidates_alike h variants)
  exact hpass.tied

theorem speaks_eq (language : LanguageTag) {r s : Ranked} (h : r.Alike s) :
    speaks language r = speaks language s := by
  rw [speaks, speaks, h.variant]

theorem find?_alike (language : LanguageTag) {rs ss : List Ranked}
    (h : List.Forall₂ Ranked.Alike rs ss) :
    Option.Rel Ranked.Alike (rs.find? (speaks language)) (ss.find? (speaks language)) := by
  induction h with
  | nil => exact .none
  | cons hrs _ ih =>
      rw [List.find?_cons, List.find?_cons, speaks_eq language hrs]
      split
      · exact .some hrs
      · exact ih

theorem preferLanguage_alike (language : Option LanguageTag) {rs ss : List Ranked}
    (h : List.Forall₂ Ranked.Alike rs ss) :
    Option.Rel Ranked.Alike (preferLanguage language rs) (preferLanguage language ss) := by
  have hhead : Option.Rel Ranked.Alike rs.head? ss.head? := by
    cases h with
    | nil => exact .none
    | cons hrs _ => exact .some hrs
  cases language with
  | none => exact hhead
  | some l =>
      have hfind := find?_alike l h
      rw [preferLanguage, preferLanguage, Option.bind_some, Option.bind_some]
      generalize rs.find? (speaks l) = found at hfind
      generalize ss.find? (speaks l) = found' at hfind
      cases hfind with
      | none => exact hhead
      | some hrs => exact .some hrs

/-- Preferences that score alike select alike. -/
theorem select_alike_of_score (n : Negotiator) (h : ∀ v, (n.score p v).Alike (n.score q v))
    (variants : List Variant) (language : Option LanguageTag) :
    Option.Rel Ranked.Alike (n.select p variants language) (n.select q variants language) :=
  preferLanguage_alike _ (n.tied_alike h variants)

/-- **Restated preferences select alike.** -/
theorem select_alike (n : Negotiator) (h : p.Restates q) (variants : List Variant)
    (language : Option LanguageTag) :
    Option.Rel Ranked.Alike (n.select p variants language) (n.select q variants language) :=
  n.select_alike_of_score (n.score_alike h) variants language

/-- **The score on an axis is the best match, whatever the order of the entries.**  Where the entries
of the lists change places or are stated again, every score stays as it is but for signs of zeros,
and the same variant is selected. -/
theorem order_free_best_match (n : Negotiator) :
    (∀ {α : Type} [AxisValue α] (accepted : Option (AcceptList α)) (value : Option α),
      AxisScore.Describes accepted value (AxisScore.of accepted value)) ∧
    ∀ p q : Preferences, p.Restates q →
      (∀ v, (n.score p v).Alike (n.score q v)) ∧
      ∀ variants language,
        Option.Rel Ranked.Alike (n.select p variants language) (n.select q variants language) :=
  ⟨AxisScore.describes_of, fun _ _ h => ⟨n.score_alike h, n.select_alike h⟩⟩

end Negotiator

/-! ### A list stated twice -/

namespace Echo

/-- Minus zero is a quality. -/
def minusZero : Quality := ⟨Binary.zero.negate, by decide, by decide⟩

def third : Quality := ⟨Binary.ofRatio .single 1 3, by decide, by decide⟩

def accepted : Preferences :=
  { Preferences.unset with
    mediaType := some [⟨.textHtml, third⟩, ⟨.textPlain, .highest⟩]
    coding := some [⟨.all, .lowest⟩, ⟨.all, minusZero⟩] }

/-- The same from the end to the beginning, with one entry of each list stated again. -/
def restated : Preferences :=
  { Preferences.unset with
    mediaType := some [⟨.textPlain, .highest⟩, ⟨.textHtml, third⟩, ⟨.textHtml, third⟩]
    coding := some [⟨.all, minusZero⟩, ⟨.all, .lowest⟩, ⟨.all, minusZero⟩] }

def hypertext : Variant := ⟨⟨some .textHtml, none, none, some .gzip⟩, by decide⟩

def plain : Variant := ⟨⟨some .textPlain, none, none, some .gzip⟩, by decide⟩

/-- The quality of the coding is zero with one sign or the other, and the selection is the same. -/
theorem restated_selects_alike :
    accepted.Restates restated ∧
      (Negotiator.standard.score accepted plain).axes.coding.quality = .zero ∧
      (Negotiator.standard.score restated plain).axes.coding.quality = minusZero.value ∧
      Option.Rel Ranked.Alike (Negotiator.standard.select accepted [hypertext, plain] none)
        (Negotiator.standard.select restated [hypertext, plain] none) ∧
      (Negotiator.standard.select restated [hypertext, plain] none).map Ranked.position = some 1 := by
  have hmedia : AcceptList.Restates accepted.mediaType restated.mediaType :=
    AcceptList.restates_of_perm [⟨.textHtml, third⟩] (by decide) (by simp)
  have hcoding : AcceptList.Restates accepted.coding restated.coding :=
    AcceptList.restates_of_perm [⟨.all, minusZero⟩] (by decide) (by simp)
  have hrestates : accepted.Restates restated := ⟨hmedia, .none, .none, hcoding⟩
  obtain ⟨-, halike⟩ := Negotiator.order_free_best_match .standard
  exact ⟨hrestates, by decide +kernel, by decide +kernel,
    (halike accepted restated hrestates).2 [hypertext, plain] none, by decide +kernel⟩

end Echo

end ContentNegotiation
