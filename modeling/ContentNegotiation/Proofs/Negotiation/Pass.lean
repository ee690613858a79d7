import ContentNegotiation.Proofs.Negotiation.Score
import ContentNegotiation.Proofs.Negotiation.Selection

/-!
# The selection over any totals

Nothing is assumed here about how the totals lie to each other.  What the pass keeps even so:

* `Leads` — the invariant of the pass: the tie list is headed by a candidate with the best total,
  its other members are within the tolerance of that, and no candidate seen so far is beyond it.
* `pass_induction` — an invariant of the first candidate and of each step is one of the pass.
* `leads_pass` — a pass over any list but the empty one ends in the invariant.

Principal results: `Negotiator.acceptance_end_to_end` (what is acceptable, and that the selection
finds it) and `Negotiator.select_near_best` (how far a selected total can fall short of the best
one).  The shortfall may exceed the tolerance: `CloseCall.winner_falls_short`.
-/

namespace ContentNegotiation

/-! ## Sums with the tolerance -/

section Tolerance

variable {x y : Single}

theorem tieTolerance_nonNegative : tieTolerance.NonNegative :=
  ⟨tieTolerance_ne_nan, Int.le_of_lt toleranceUnits_pos⟩

theorem exact_le_add_tolerance (hx : x.NonNegative) : x.exact ≤ (x + tieTolerance).exact := by
  cases hfin : x.isFinite with
  | false =>
      rw [hx.eq_infinity hfin, Binary.infinity_add tieTolerance_nonNegative]
  | true =>
      have hmono := Format.single.roundSigned_mono (show x.exact ≤ x.exact + tieTolerance.exact by
        have := tieTolerance_nonNegative.exact_nonneg
        omega)
      rwa [x.roundSigned_exact, ← (Binary.exact_add hfin tieTolerance_isFinite).2] at hmono

/-- Rounding the sum adds at most the tolerance once more. -/
theorem exact_add_tolerance_le (hx : x.NonNegative) :
    (x + tieTolerance).exact ≤ x.exact + 2 * toleranceUnits := by
  have hpos := toleranceUnits_pos
  cases hfin : x.isFinite with
  | false =>
      rw [hx.eq_infinity hfin, Binary.infinity_add tieTolerance_nonNegative]
      omega
  | true =>
      rw [(Binary.exact_add hfin tieTolerance_isFinite).2]
      obtain ⟨rank, hr, hu⟩ := x.exact_eq_units
      have hnear := Format.single.natAbs_roundSigned_sub_le (x.exact + tieTolerance.exact) hr hu
      rw [← toleranceUnits] at hnear ⊢
      omega

/-- Totals within the tolerance are finite. -/
theorem isFinite_of_within (h : (x - y).abs.atMost tieTolerance = true) :
    x.isFinite = true ∧ y.isFinite = true := by
  have hnum : x - y ≠ .nan := by
    intro hnan
    rw [hnan] at h
    cases h
  have hle := (Binary.atMost_iff (Binary.abs_ne_nan hnum) tieTolerance_ne_nan).mp h
  have hfin := (Binary.NonNegative.abs hnum).isFinite_of_le tieTolerance_isFinite hle
  rw [Binary.isFinite_abs] at hfin
  obtain ⟨hx, hy⟩ := Binary.isFinite_of_isFinite_add hfin
  rw [Binary.isFinite_negate] at hy
  exact ⟨hx, hy⟩

/-- The rounded difference hides at most the tolerance once more. -/
theorem exact_le_of_within (h : (x - y).abs.atMost tieTolerance = true) :
    y.exact ≤ x.exact + 2 * toleranceUnits := by
  obtain ⟨hx, hy⟩ := isFinite_of_within h
  by_cases hgap : 2 * toleranceUnits < y.exact - x.exact
  · exact absurd h (not_within_of_below ⟨hx, hy, hgap⟩)
  · omega

/-- A tolerance is at most a millionth. -/
theorem value_le_of_exact_le {k : ℕ} (h : x.exact ≤ y.exact + k * toleranceUnits) :
    x.value ≤ y.value + k / 10 ^ 6 := by
  have htol : (toleranceUnits : ℚ) * 10 ^ 6 ≤ 2 ^ Format.single.scale := by
    exact_mod_cast toleranceUnits_le
  have hscale : (0 : ℚ) < 2 ^ Format.single.scale := by positivity
  have hcast : (x.exact : ℚ) ≤ y.exact + k * toleranceUnits := by exact_mod_cast h
  have hmillionth : (k * toleranceUnits : ℚ) / 2 ^ Format.single.scale ≤ k / 10 ^ 6 := by
    rw [div_le_div_iff₀ hscale (by positivity), mul_assoc]
    exact mul_le_mul_of_nonneg_left htol (by positivity)
  calc x.value ≤ (y.exact + k * toleranceUnits) / 2 ^ Format.single.scale :=
        div_le_div_of_nonneg_right hcast hscale.le
    _ = y.value + k * toleranceUnits / 2 ^ Format.single.scale := add_div ..
    _ ≤ y.value + k / 10 ^ 6 := by linarith

end Tolerance

/-! ## The pass -/

/-- What the pass knows after a stretch of the candidates, whatever their totals are. -/
structure Leads (seen : List Ranked) (l : Negotiator.Leaders) : Prop where
  headed : ∃ leader ∈ l.tied.head?, leader.score.total = l.best
  members : l.tied ⊆ seen
  near : ∀ r ∈ l.tied, r.score.total = l.best ∨
    (r.score.total - l.best).abs.atMost tieTolerance = true
  unbeaten : ∀ r ∈ seen, r.score.total.exact ≤ (l.best + tieTolerance).exact

section Pass

variable {seen : List Ranked} {l : Negotiator.Leaders} {r : Ranked}

theorem Leads.best_nonNegative (h : Leads seen l)
    (hnum : ∀ s ∈ seen, s.score.total.NonNegative) : l.best.NonNegative := by
  obtain ⟨leader, hhead, hbest⟩ := h.headed
  rw [← hbest]
  exact hnum leader (h.members (List.mem_of_mem_head? hhead))

theorem leads_single (hr : r.score.total.NonNegative) : Leads [r] ⟨r.score.total, [r]⟩ := by
  refine ⟨⟨r, rfl, rfl⟩, List.Subset.refl _, ?_, ?_⟩
  · intro s hs
    rw [List.mem_singleton.mp hs]
    exact Or.inl rfl
  · intro s hs
    rw [List.mem_singleton.mp hs]
    exact exact_le_add_tolerance hr

theorem leads_meet (h : Leads seen l) (hnum : ∀ s ∈ seen ++ [r], s.score.total.NonNegative) :
    Leads (seen ++ [r]) (l.meet r) := by
  have hr := hnum r (by simp)
  have hbest := h.best_nonNegative fun s hs => hnum s (List.mem_append_left _ hs)
  have hless := Binary.less_iff (hbest.add tieTolerance_nonNegative).ne_nan hr.ne_nan
  rcases meet_cases l r with ⟨hbeyond, hmeet⟩ | ⟨hbeyond, hmeet⟩
  · -- beyond the best: what no candidate so far exceeds lies below the new total
    have hgreater := hless.mp hbeyond
    have hself : Leads [r] ⟨r.score.total, [r]⟩ := leads_single hr
    have hup := exact_le_add_tolerance hr
    rw [hmeet]
    refine ⟨hself.headed, fun s hs => List.mem_append_right _ hs, hself.near, ?_⟩
    intro s hs
    rcases List.mem_append.mp hs with hs | hs
    · have hle := h.unbeaten s hs
      exact Int.le_trans hle (Int.le_trans (Int.le_of_lt hgreater) hup)
    · exact hself.unbeaten s hs
  · -- not beyond it: the best stays, whether the candidate ties or is dropped
    have hunbeaten : ∀ s ∈ seen ++ [r], s.score.total.exact ≤ (l.best + tieTolerance).exact := by
      intro s hs
      rcases List.mem_append.mp hs with hs | hs
      · exact h.unbeaten s hs
      · rw [List.mem_singleton.mp hs]
        exact Int.not_lt.mp (hless.not.mp hbeyond)
    rcases hmeet with ⟨hwithin, hmeet⟩ | ⟨-, hmeet⟩
    · obtain ⟨leader, hhead, htotal⟩ := h.headed
      rw [hmeet]
      refine ⟨⟨leader, ?_, htotal⟩, ?_, ?_, hunbeaten⟩
      · rw [List.head?_append, hhead]
        rfl
      · exact List.append_subset.mpr
          ⟨fun s hs => List.mem_append_left _ (h.members hs), List.subset_append_right _ _⟩
      · intro s hs
        rcases List.mem_append.mp hs with hs | hs
        · exact h.near s hs
        · rw [List.mem_singleton.mp hs]
          exact Or.inr hwithin
    · rw [hmeet]
      exact ⟨h.headed, fun s hs => List.mem_append_left _ (h.members hs), h.near, hunbeaten⟩

/-- What holds after the first candidate and is kept by each further one holds after the pass. -/
theorem pass_induction {P : List Ranked → Negotiator.Leaders → Prop}
    (single : ∀ r, r.score.total.NonNegative → P [r] ⟨r.score.total, [r]⟩)
    (meet : ∀ seen l r, P seen l → (∀ s ∈ seen ++ [r], s.score.total.NonNegative) →
      P (seen ++ [r]) (l.meet r))
    {rs : List Ranked} (hne : rs ≠ []) (hnum : ∀ r ∈ rs, r.score.total.NonNegative) :
    P rs (rs.foldl Negotiator.Leaders.meet Negotiator.Leaders.none) := by
  induction rs using List.reverseRecOn with
  | nil => exact absurd rfl hne
  | append_singleton rs r ih =>
      rw [List.foldl_append]
      by_cases hnil : rs = []
      · subst hnil
        have hr := hnum r (by simp)
        have hstart : Negotiator.Leaders.none.best.exact < 0 := by decide
        have habove := Int.lt_of_lt_of_le hstart hr.exact_nonneg
        rw [List.foldl_nil, List.foldl_cons, List.foldl_nil, meet_none hr.ne_nan habove]
        exact single r hr
      · exact meet _ _ r (ih hnil fun s hs => hnum s (List.mem_append_left _ hs)) hnum

/-- A pass over any list but the empty one ends in the invariant. -/
theorem leads_pass {rs : List Ranked} (hne : rs ≠ [])
    (hnum : ∀ r ∈ rs, r.score.total.NonNegative) :
    Leads rs (rs.foldl Negotiator.Leaders.meet Negotiator.Leaders.none) :=
  pass_induction (fun _ hr => leads_single hr) (fun _ _ _ h hnum => leads_meet h hnum) hne hnum

end Pass

namespace Negotiator

variable {n : Negotiator} {accepted : Preferences} {variants : List Variant}
  {language : Option LanguageTag} {r : Ranked}

/-! ## What is selected -/

theorem candidates_eq_nil_iff :
    n.candidates accepted variants = [] ↔
      ∀ v ∈ variants, (n.score accepted v).acceptable = false := by
  rw [List.eq_nil_iff_forall_not_mem]
  constructor
  · intro h v hv
    obtain ⟨i, hi⟩ := List.mem_iff_getElem?.mp hv
    refine Bool.eq_false_iff.mpr fun hacc => ?_
    exact h ⟨i, v, n.score accepted v⟩ (mem_candidates_iff.mpr ⟨hi, rfl, hacc⟩)
  · intro h r hr
    obtain ⟨hplace, -, hacc⟩ := mem_candidates_iff.mp hr
    rw [h r.variant (List.mem_of_getElem? hplace)] at hacc
    cases hacc

theorem candidates_nonNegative (n : Negotiator) (accepted : Preferences) (variants : List Variant) :
    ∀ r ∈ n.candidates accepted variants, r.score.total.NonNegative := by
  intro r hr
  rw [(mem_candidates hr).2.1]
  exact n.total_nonNegative accepted r.variant

theorem leads_tied (hne : n.candidates accepted variants ≠ []) :
    ∃ l, Leads (n.candidates accepted variants) l ∧ n.tied accepted variants = l.tied :=
  ⟨_, leads_pass hne (n.candidates_nonNegative accepted variants), rfl⟩

theorem preferLanguage_eq_none_iff {rs : List Ranked} :
    preferLanguage language rs = none ↔ rs = [] := by
  cases rs with
  | nil => cases language <;> simp [preferLanguage]
  | cons r rs => simp [preferLanguage_eq_getD language (List.head?_cons ..)]

/-- A preference for a language picks a member; without one the first member is picked. -/
theorem mem_of_preferLanguage {rs : List Ranked} (h : preferLanguage language rs = some r) :
    r ∈ rs ∧ (language = none → rs.head? = some r) := by
  unfold preferLanguage at h
  cases language with
  | none => exact ⟨List.mem_of_mem_head? h, fun _ => h⟩
  | some l =>
      refine ⟨?_, fun hnone => nomatch hnone⟩
      rcases Option.or_eq_some_iff.mp h with hfind | ⟨-, hhead⟩
      · exact List.mem_of_find?_eq_some hfind
      · exact List.mem_of_mem_head? hhead

theorem select_eq_none_iff :
    n.select accepted variants language = none ↔ n.candidates accepted variants = [] := by
  rw [select, preferLanguage_eq_none_iff]
  constructor
  · intro htied
    by_contra hne
    obtain ⟨l, hl, hsame⟩ := leads_tied hne
    obtain ⟨leader, hhead, -⟩ := hl.headed
    rw [← hsame, htied] at hhead
    cases hhead
  · intro hnil
    rw [tied, hnil]
    rfl

/-- A selected candidate stands in the tie list, and without a language at its head. -/
theorem leads_of_select (h : n.select accepted variants language = some r) :
    ∃ l, Leads (n.candidates accepted variants) l ∧ r ∈ l.tied ∧
      (language.or n.settings.defaultLanguage = none → r.score.total = l.best) := by
  have hne : n.candidates accepted variants ≠ [] := by
    intro hnil
    rw [select_eq_none_iff.mpr hnil] at h
    cases h
  obtain ⟨l, hl, hsame⟩ := leads_tied hne
  obtain ⟨hmem, hfirst⟩ := mem_of_preferLanguage h
  rw [hsame] at hmem hfirst
  refine ⟨l, hl, hmem, fun hnone => ?_⟩
  obtain ⟨leader, hhead, hbest⟩ := hl.headed
  rw [hfirst hnone] at hhead
  rw [Option.some.inj hhead]
  exact hbest

theorem acceptable_of_select (h : n.select accepted variants language = some r) :
    variants[r.position]? = some r.variant ∧ r.score = n.score accepted r.variant ∧
      (n.score accepted r.variant).acceptable = true := by
  obtain ⟨l, hl, hmem, -⟩ := leads_of_select h
  exact mem_candidates_iff.mp (hl.members hmem)

/-- **Acceptability, end to end.**  A variant is acceptable exactly if every axis that states more
than wildcards either is unset in the variant or has an entry of quality above zero that matches.
The selection finds nothing exactly if nothing is acceptable, and what it finds is acceptable. -/
theorem acceptance_end_to_end (n : Negotiator) (accepted : Preferences) :
    (∀ v : Variant, (n.score accepted v).acceptable = true ↔ accepted.Admits v.values) ∧
    ∀ (variants : List Variant) (language : Option LanguageTag),
      (n.select accepted variants language = none ↔
        ∀ v ∈ variants, (n.score accepted v).acceptable = false) ∧
      ∀ r, n.select accepted variants language = some r →
        variants[r.position]? = some r.variant ∧
          (n.score accepted r.variant).acceptable = true := by
  refine ⟨n.acceptable_iff accepted, fun variants language => ⟨?_, fun r hr => ?_⟩⟩
  · rw [select_eq_none_iff, candidates_eq_nil_iff]
  · obtain ⟨hplace, -, hacc⟩ := acceptable_of_select hr
    exact ⟨hplace, hacc⟩

end Negotiator

/-! ### Languages that are all refused -/

namespace Refusal

/-- French is refused, and so is every other language. -/
def accepted : Preferences :=
  { Preferences.unset with language := some [⟨Pages.french, .lowest⟩, ⟨.all, .lowest⟩] }

def english : Variant := ⟨⟨some .textPlain, some Pages.english, none, none⟩, by decide⟩

def unmarked : Variant := ⟨⟨some .textPlain, none, none, none⟩, by decide⟩

/-- An entry of quality zero matches without admitting, but no language is needed. -/
theorem selects_unmarked :
    ¬ accepted.Admits english.values ∧ accepted.Admits unmarked.values ∧
      ∃ r, Negotiator.standard.select accepted [english, unmarked] none = some r ∧
        r.variant = unmarked := by
  obtain ⟨hadmits, hselect⟩ := Negotiator.acceptance_end_to_end .standard accepted
  have hrefused : (Negotiator.standard.score accepted english).acceptable = false := by
    decide +kernel
  have hfree : (Negotiator.standard.score accepted unmarked).acceptable = true := by
    decide +kernel
  refine ⟨fun h => ?_, (hadmits unmarked).mp hfree, ?_⟩
  · rw [← hadmits, hrefused] at h
    cases h
  · obtain ⟨hnone, hsome⟩ := hselect [english, unmarked] none
    cases hr : Negotiator.standard.select accepted [english, unmarked] none with
    | none =>
        rw [hnone.mp hr unmarked (by simp)] at hfree
        cases hfree
    | some r =>
        obtain ⟨hplace, hacc⟩ := hsome r hr
        refine ⟨r, rfl, ?_⟩
        rcases List.mem_cons.mp (List.mem_of_getElem? hplace) with h | h
        · rw [h, hrefused] at hacc
          cases hacc
        · exact List.mem_singleton.mp h

end Refusal

namespace Negotiator

variable {n : Negotiator} {accepted : Preferences} {variants : List Variant}
  {language : Option LanguageTag} {r : Ranked}

/-! ## How good the selected variant is -/

/-- No acceptable variant of the list has a total above the bound. -/
def TotalsWithin (n : Negotiator) (accepted : Preferences) (variants : List Variant)
    (bound : ℚ) : Prop :=
  ∀ v ∈ variants, (n.score accepted v).acceptable = true →
    (n.score accepted v).total.value ≤ bound

theorem totalsWithin_of_candidates {bound : ℚ}
    (h : ∀ s ∈ n.candidates accepted variants, s.score.total.value ≤ bound) :
    n.TotalsWithin accepted variants bound := by
  intro v hv hacc
  obtain ⟨i, hi⟩ := List.mem_iff_getElem?.mp hv
  exact h ⟨i, v, n.score accepted v⟩ (mem_candidates_iff.mpr ⟨hi, rfl, hacc⟩)

/-- **A selected total is near the best one.**  No acceptable total exceeds it by more than four
millionths.  Where no default language is in effect, none exceeds the sum of the selected total and
the tolerance as that sum is rounded, which is at most two millionths more. -/
theorem select_near_best (h : n.select accepted variants language = some r) :
    (n.score accepted r.variant).acceptable = true ∧
    n.TotalsWithin accepted variants ((n.score accepted r.variant).total.value + 4 / 10 ^ 6) ∧
    (language.or n.settings.defaultLanguage = none →
      n.TotalsWithin accepted variants ((n.score accepted r.variant).total + tieTolerance).value ∧
      ((n.score accepted r.variant).total + tieTolerance).value ≤
        (n.score accepted r.variant).total.value + 2 / 10 ^ 6) := by
  obtain ⟨-, hscore, hacc⟩ := acceptable_of_select h
  obtain ⟨l, hl, hmem, hfirst⟩ := leads_of_select h
  have hnum : ∀ s ∈ n.candidates accepted variants, s.score.total.NonNegative := by
    intro s hs
    rw [(mem_candidates hs).2.1]
    exact n.total_nonNegative accepted s.variant
  have hbest := hl.best_nonNegative hnum
  have hround := exact_add_tolerance_le hbest
  rw [← hscore]
  refine ⟨hscore ▸ hacc, totalsWithin_of_candidates fun s hs => ?_, fun hnone => ⟨?_, ?_⟩⟩
  · have hunbeaten := hl.unbeaten s hs
    have hnear : l.best.exact ≤ r.score.total.exact + 2 * toleranceUnits := by
      rcases hl.near r hmem with heq | hwithin
      · have hpos := toleranceUnits_pos
        rw [heq]
        omega
      · exact exact_le_of_within hwithin
    exact value_le_of_exact_le (k := 4) (by push_cast; omega)
  · rw [hfirst hnone]
    exact totalsWithin_of_candidates fun s hs => Binary.value_le_iff.mpr (hl.unbeaten s hs)
  · rw [hfirst hnone]
    exact value_le_of_exact_le (k := 2) (by push_cast; omega)

end Negotiator

/-! ### Two texts whose totals are close -/

namespace CloseCall

/-- Only the media type counts. -/
def negotiator : Negotiator :=
  ⟨⟨⟨Binary.ofNat _ 1, Binary.zero, Binary.zero, Binary.zero⟩, none⟩, by decide⟩

/-- Plain text at one half, hypertext at the seventeenth number above that. -/
def accepted : Preferences :=
  { Preferences.unset with
    mediaType := some
      [⟨.textPlain, ⟨Binary.ofRatio .single 8388608 16777216, by decide, by decide⟩⟩,
        ⟨.textHtml, ⟨Binary.ofRatio .single 8388625 16777216, by decide, by decide⟩⟩] }

def plain : Variant := ⟨⟨some .textPlain, none, none, none⟩, by decide⟩

def hypertext : Variant := ⟨⟨some .textHtml, none, none, none⟩, by decide⟩

theorem select_plain :
    ∃ r, negotiator.select accepted [plain, hypertext] none = some r ∧ r.variant = plain := by
  have hposition : (negotiator.select accepted [plain, hypertext] none).map Ranked.position =
      some 0 := by decide +kernel
  obtain ⟨r, hr, hzero⟩ := Option.map_eq_some_iff.mp hposition
  obtain ⟨hplace, -⟩ := Negotiator.acceptable_of_select hr
  rw [hzero] at hplace
  exact ⟨r, hr, (Option.some.inj hplace).symm⟩

/-- The sum of the first total and the tolerance is rounded up to the second total, which is then
not beyond it, and the difference of the totals is above the tolerance.  So the second variant
neither leads nor ties, and the selection falls short of it by more than a millionth. -/
theorem winner_falls_short :
    ∃ r, negotiator.select accepted [plain, hypertext] none = some r ∧ r.variant = plain ∧
      (negotiator.score accepted hypertext).acceptable = true ∧
      1 / 10 ^ 6 < (negotiator.score accepted hypertext).total.value -
        (negotiator.score accepted plain).total.value ∧
      ¬ negotiator.TotalsWithin accepted [plain, hypertext]
        ((negotiator.score accepted plain).total.value + tieTolerance.value) := by
  obtain ⟨r, hr, hplain⟩ := select_plain
  have hacc : (negotiator.score accepted hypertext).acceptable = true := by decide +kernel
  have hgap : 1 / 10 ^ 6 < (negotiator.score accepted hypertext).total.value -
      (negotiator.score accepted plain).total.value := by decide +kernel
  have htol : tieTolerance.value ≤ 1 / 10 ^ 6 := by decide +kernel
  refine ⟨r, hr, hplain, hacc, hgap, fun hwithin => ?_⟩
  have hle := hwithin hypertext (by simp) hacc
  linarith

/-- The shortfall is no more than two millionths. -/
theorem winner_near_best :
    ∃ r, negotiator.select accepted [plain, hypertext] none = some r ∧ r.variant = plain ∧
      negotiator.TotalsWithin accepted [plain, hypertext]
        ((negotiator.score accepted plain).total.value + 2 / 10 ^ 6) := by
  obtain ⟨r, hr, hplain⟩ := select_plain
  obtain ⟨-, -, hnone⟩ := Negotiator.select_near_best hr
  obtain ⟨hwithin, hsum⟩ := hnone rfl
  rw [hplain] at hwithin hsum
  exact ⟨r, hr, hplain, fun v hv hacc => (hwithin v hv hacc).trans hsum⟩

end CloseCall

end ContentNegotiation
