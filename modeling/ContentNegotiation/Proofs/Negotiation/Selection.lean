import ContentNegotiation.Proofs.Negotiation.Tolerance

/-!
# The selection against the ranking

The selection runs once over the candidates with a best total and a tie list; the ranking sorts
them.  Where the totals are finite and any two of them are the same or clearly apart, the tie list
at the end of the pass is the top group of the sorted list, in the same order.

* `Leading` — the invariant of the pass: the best total is attained, every other total is clearly
  below it, and the tie list is the candidates seen so far that attain it, in input order.
* `leading_foldl` — every pass over clear totals keeps the invariant.
* `filter_mergeSort_key` — sorting by a key keeps the order inside each group of equal keys.

Principal results: `Negotiator.tied_eq_filter_rank` (the tie list is the top group of the ranking)
and `Negotiator.select_eq_rank_preferred` (what the selection returns, read off the ranking).
-/

namespace ContentNegotiation

/-- Every total is finite, and any two of them are the same or clearly apart. -/
structure ClearTotals (rs : List Ranked) : Prop where
  finite : ∀ r ∈ rs, r.score.total.isFinite = true
  apart : ∀ r ∈ rs, ∀ s ∈ rs, r.score.total = s.score.total ∨
    Below r.score.total s.score.total ∨ Below s.score.total r.score.total

/-- What the pass knows after a stretch of the candidates. -/
structure Leading (seen : List Ranked) (l : Negotiator.Leaders) : Prop where
  attained : ∃ r ∈ seen, r.score.total = l.best
  highest : ∀ r ∈ seen, r.score.total = l.best ∨ Below r.score.total l.best
  tied : l.tied = seen.filter fun r => decide (r.score.total = l.best)

theorem Below.trans {x y z : Single} (h : Below x y) (h' : Below y z) : Below x z := by
  have hgap := h.gap
  have hlt := h'.exact_lt
  exact ⟨h.left, h'.right, by omega⟩

/-! ## The pass -/

section Pass

variable {seen : List Ranked} {l : Negotiator.Leaders} {r : Ranked}

/-- A clearly greater total empties the tie list. -/
theorem leading_of_below (h : Leading seen l) (hr : Below l.best r.score.total) :
    Leading (seen ++ [r]) ⟨r.score.total, [r]⟩ := by
  have hbelow : ∀ s ∈ seen, Below s.score.total r.score.total := by
    intro s hs
    rcases h.highest s hs with heq | hlt
    · rw [heq]
      exact hr
    · exact hlt.trans hr
  refine ⟨⟨r, by simp, rfl⟩, ?_, ?_⟩
  · intro s hs
    rcases List.mem_append.mp hs with hs | hs
    · exact Or.inr (hbelow s hs)
    · rw [List.mem_singleton.mp hs]
      exact Or.inl rfl
  · have hnone : (seen.filter fun s => decide (s.score.total = r.score.total)) = [] := by
      rw [List.filter_eq_nil_iff]
      intro s hs
      rw [decide_eq_true_eq]
      exact (hbelow s hs).ne
    rw [List.filter_append, hnone]
    simp

/-- An equal total is appended to the tie list. -/
theorem leading_of_same (h : Leading seen l) (hr : r.score.total = l.best) :
    Leading (seen ++ [r]) { l with tied := l.tied ++ [r] } := by
  refine ⟨⟨r, by simp, hr⟩, ?_, ?_⟩
  · intro s hs
    rcases List.mem_append.mp hs with hs | hs
    · exact h.highest s hs
    · rw [List.mem_singleton.mp hs]
      exact Or.inl hr
  · show l.tied ++ [r] = _
    rw [List.filter_append, ← h.tied]
    simp [hr]

/-- A clearly smaller total changes nothing. -/
theorem leading_of_above (h : Leading seen l) (hr : Below r.score.total l.best) :
    Leading (seen ++ [r]) l := by
  obtain ⟨s, hs, hsbest⟩ := h.attained
  refine ⟨⟨s, List.mem_append_left _ hs, hsbest⟩, ?_, ?_⟩
  · intro s hs
    rcases List.mem_append.mp hs with hs | hs
    · exact h.highest s hs
    · rw [List.mem_singleton.mp hs]
      exact Or.inr hr
  · rw [List.filter_append, ← h.tied]
    simp [hr.ne]

theorem leading_meet (h : Leading seen l) (hc : ClearTotals (seen ++ [r])) :
    Leading (seen ++ [r]) (l.meet r) := by
  have hrmem : r ∈ seen ++ [r] := by simp
  obtain ⟨s, hs, hsbest⟩ := h.attained
  have hapart := hc.apart r hrmem s (List.mem_append_left _ hs)
  rw [hsbest] at hapart
  rcases hapart with hsame | habove | hbelow
  · rw [meet_of_same (hc.finite r hrmem) hsame]
    exact leading_of_same h hsame
  · rw [meet_of_above habove]
    exact leading_of_above h habove
  · rw [meet_of_below hbelow]
    exact leading_of_below h hbelow

theorem ClearTotals.of_subset {rs ss : List Ranked} (h : ClearTotals rs) (hsub : ss ⊆ rs) :
    ClearTotals ss :=
  ⟨fun r hr => h.finite r (hsub hr), fun r hr s hs => h.apart r (hsub hr) s (hsub hs)⟩

/-- The invariant holds at every point of the pass, whatever is still to come. -/
theorem leading_foldl : ∀ (rs : List Ranked) {seen : List Ranked} {l : Negotiator.Leaders},
    Leading seen l → ClearTotals (seen ++ rs) →
      Leading (seen ++ rs) (rs.foldl Negotiator.Leaders.meet l)
  | [], seen, l, h, _ => by
    rw [List.append_nil]
    exact h
  | r :: rs, seen, l, h, hc => by
    have hsplit : seen ++ r :: rs = (seen ++ [r]) ++ rs := by simp
    rw [hsplit] at hc ⊢
    have hstep := leading_meet h (hc.of_subset (List.subset_append_left _ _))
    exact leading_foldl rs hstep hc

/-- The first candidate always starts a tie list, so a pass over any list but the empty one ends in
the invariant. -/
theorem leading_pass {rs : List Ranked} (hne : rs ≠ []) (hc : ClearTotals rs) :
    Leading rs (rs.foldl Negotiator.Leaders.meet Negotiator.Leaders.none) := by
  obtain ⟨r, rs, rfl⟩ := List.exists_cons_of_ne_nil hne
  have hfin := hc.finite r (by simp)
  rw [List.foldl_cons, meet_none (Binary.ne_nan_of_isFinite hfin) (exact_start_lt hfin)]
  have hfirst : Leading [r] ⟨r.score.total, [r]⟩ := ⟨⟨r, by simp, rfl⟩, by simp, by simp⟩
  exact leading_foldl rs hfirst hc

end Pass

/-! ## The sort -/

section Sorting

variable {α : Type}

theorem descending_trans (key : α → Int) (a b c : α) (hab : decide (key b ≤ key a) = true)
    (hbc : decide (key c ≤ key b) = true) : decide (key c ≤ key a) = true := by
  rw [decide_eq_true_eq] at *
  omega

theorem descending_total (key : α → Int) (a b : α) :
    (decide (key b ≤ key a) || decide (key a ≤ key b)) = true := by
  rw [Bool.or_eq_true, decide_eq_true_eq, decide_eq_true_eq]
  omega

theorem pairwise_mergeSort_key (key : α → Int) (rs : List α) :
    (rs.mergeSort fun a b => decide (key b ≤ key a)).Pairwise fun a b => key b ≤ key a := by
  have h := List.pairwise_mergeSort (descending_trans key) (descending_total key) rs
  exact h.imp fun hab => decide_eq_true_eq.mp hab

/-- Sorting by a key keeps the order inside each group of equal keys. -/
theorem filter_mergeSort_key (key : α → Int) (k : Int) (rs : List α) :
    ((rs.mergeSort fun a b => decide (key b ≤ key a)).filter fun a => decide (key a = k)) =
      rs.filter fun a => decide (key a = k) := by
  have hgroup : (rs.filter fun a => decide (key a = k)).Pairwise
      fun a b => decide (key b ≤ key a) = true := by
    rw [List.pairwise_filter]
    refine List.pairwise_of_forall ?_
    intro a b ha hb
    rw [decide_eq_true_eq] at ha hb ⊢
    omega
  -- A group is sorted already, so it survives the sort as a sublist, and it loses no member.
  have hsub := List.sublist_mergeSort (descending_trans key) (descending_total key) hgroup
    List.filter_sublist
  have hkept := hsub.filter fun a => decide (key a = k)
  rw [List.filter_filter] at hkept
  simp only [Bool.and_self] at hkept
  have hperm := (List.mergeSort_perm rs fun a b => decide (key b ≤ key a)).filter
    fun a => decide (key a = k)
  exact (hkept.eq_of_length hperm.length_eq.symm).symm

end Sorting

namespace Negotiator

variable {n : Negotiator} {accepted : Preferences} {variants : List Variant}

/-! ## The top of the ranking -/

theorem rank_eq_nil_iff : n.rank accepted variants = [] ↔ n.candidates accepted variants = [] := by
  unfold rank
  rw [← List.length_eq_zero_iff, List.length_mergeSort, List.length_eq_zero_iff]

/-- A candidate is an acceptable variant at its place in the list, with its own score. -/
theorem mem_candidates_iff {r : Ranked} : r ∈ n.candidates accepted variants ↔
    variants[r.position]? = some r.variant ∧ r.score = n.score accepted r.variant ∧
      (n.score accepted r.variant).acceptable = true := by
  unfold candidates
  rw [List.mem_filter, List.mem_map]
  constructor
  · rintro ⟨⟨⟨v, i⟩, hvi, rfl⟩, hacc⟩
    exact ⟨List.mem_zipIdx_iff_getElem?.mp hvi, rfl, hacc⟩
  · rintro ⟨hplace, hscore, hacc⟩
    obtain ⟨i, v, s⟩ := r
    obtain rfl : s = n.score accepted v := hscore
    exact ⟨⟨(v, i), List.mem_zipIdx_iff_getElem?.mpr hplace, rfl⟩, hacc⟩

theorem mem_candidates {r : Ranked} (h : r ∈ n.candidates accepted variants) :
    r.variant ∈ variants ∧ r.score = n.score accepted r.variant ∧ r.score.acceptable = true := by
  obtain ⟨hplace, hscore, hacc⟩ := mem_candidates_iff.mp h
  exact ⟨List.mem_of_getElem? hplace, hscore, hscore ▸ hacc⟩

/-- The first of the ranking has the best total of the pass. -/
theorem total_head_rank {l : Leaders} {best : Ranked} {rest : List Ranked}
    (hl : Leading (n.candidates accepted variants) l)
    (hrank : n.rank accepted variants = best :: rest) : best.score.total = l.best := by
  have hsorted := pairwise_mergeSort_key (fun r : Ranked => r.score.total.orderKey)
    (n.candidates accepted variants)
  have hmem : ∀ r, r ∈ best :: rest ↔ r ∈ n.candidates accepted variants := by
    intro r
    rw [← hrank]
    exact List.mem_mergeSort
  rw [← rank, hrank] at hsorted
  obtain ⟨s, hs, hsbest⟩ := hl.attained
  rcases hl.highest best ((hmem best).mp (by simp)) with heq | hbelow
  · exact heq
  · exfalso
    have hlt := hbelow.orderKey_lt
    rw [← hsbest] at hlt
    rcases List.mem_cons.mp ((hmem s).mpr hs) with rfl | htail
    · omega
    · have hle := List.rel_of_pairwise_cons hsorted htail
      omega

/-- **The tie list is the top group of the ranking**, in the same order. -/
theorem tied_eq_filter_rank {best : Ranked} {rest : List Ranked}
    (hc : ClearTotals (n.candidates accepted variants))
    (hrank : n.rank accepted variants = best :: rest) :
    n.tied accepted variants =
      (n.rank accepted variants).filter fun r => decide (r.score.total = best.score.total) := by
  have hne : n.candidates accepted variants ≠ [] := by
    rw [Ne, ← rank_eq_nil_iff, hrank]
    simp
  have hl := leading_pass hne hc
  have hbest := total_head_rank hl hrank
  -- Under clear totals the sort key tells exactly the totals apart.
  have hkey : ∀ r ∈ n.candidates accepted variants,
      decide (r.score.total = best.score.total) =
        decide (r.score.total.orderKey = best.score.total.orderKey) := by
    intro r hr
    rw [decide_eq_decide, hbest]
    constructor
    · intro h
      rw [h]
    · intro h
      rcases hl.highest r hr with heq | hbelow
      · exact heq
      · have := hbelow.orderKey_lt
        omega
  unfold tied
  rw [hl.tied, ← hbest, List.filter_congr hkey,
    ← filter_mergeSort_key (fun r : Ranked => r.score.total.orderKey), ← rank]
  refine List.filter_congr ?_
  intro r hr
  exact (hkey r (List.mem_mergeSort.mp hr)).symm

/-! ## The selection -/

/-- Clear totals, stated of the variants by value: finite where acceptable, and any two of them the
same or more than two millionths apart. -/
theorem clearTotals_candidates
    (hfin : ∀ v ∈ variants, (n.score accepted v).acceptable = true →
      (n.score accepted v).total.isFinite = true)
    (hapart : ∀ v ∈ variants, ∀ w ∈ variants, (n.score accepted v).acceptable = true →
      (n.score accepted w).acceptable = true →
        (n.score accepted v).total = (n.score accepted w).total ∨
          2 / 10 ^ 6 < |(n.score accepted v).total.value - (n.score accepted w).total.value|) :
    ClearTotals (n.candidates accepted variants) := by
  have hfinite : ∀ r ∈ n.candidates accepted variants, r.score.total.isFinite = true := by
    intro r hr
    obtain ⟨hmem, hscore, hacc⟩ := mem_candidates hr
    rw [hscore] at hacc ⊢
    exact hfin r.variant hmem hacc
  refine ⟨hfinite, ?_⟩
  intro r hr s hs
  obtain ⟨hmem, hscore, hacc⟩ := mem_candidates hr
  obtain ⟨hmem', hscore', hacc'⟩ := mem_candidates hs
  have hrfin := hfinite r hr
  have hsfin := hfinite s hs
  rw [hscore] at hacc hrfin ⊢
  rw [hscore'] at hacc' hsfin ⊢
  rcases hapart r.variant hmem s.variant hmem' hacc hacc' with heq | hgap
  · exact Or.inl heq
  · exact Or.inr (below_or_below hrfin hsfin hgap)

theorem preferLanguage_eq_getD (language : Option LanguageTag) {rs : List Ranked} {best : Ranked}
    (h : rs.head? = some best) :
    preferLanguage language rs =
      some ((language.bind fun l => rs.find? (speaks l)).getD best) := by
  unfold preferLanguage
  rw [h]
  cases language.bind fun l => rs.find? (speaks l) with
  | none => rfl
  | some r => rfl

theorem speaks_eq_any (language : LanguageTag) :
    speaks language = fun r : Ranked =>
      r.variant.values.language.any fun l => (language.specificity l).isSome := by
  funext r
  unfold speaks
  cases r.variant.values.language with
  | none => rfl
  | some l => rfl

/-- **The selection, read off the ranking.**  Nothing is selected exactly when nothing is ranked.
Otherwise the selection is the first, in the group of the ranking that shares the first total, with
a language that the effective default language matches, or else the first of the ranking. -/
theorem select_eq_rank_preferred (n : Negotiator) (accepted : Preferences)
    (variants : List Variant) (language : Option LanguageTag)
    (hfin : ∀ v ∈ variants, (n.score accepted v).acceptable = true →
      (n.score accepted v).total.isFinite = true)
    (hapart : ∀ v ∈ variants, ∀ w ∈ variants, (n.score accepted v).acceptable = true →
      (n.score accepted w).acceptable = true →
        (n.score accepted v).total = (n.score accepted w).total ∨
          2 / 10 ^ 6 < |(n.score accepted v).total.value - (n.score accepted w).total.value|) :
    (n.select accepted variants language = none ↔ n.rank accepted variants = []) ∧
      ∀ best ∈ (n.rank accepted variants).head?,
        n.select accepted variants language =
          some (((language.or n.settings.defaultLanguage).bind fun l =>
            ((n.rank accepted variants).filter fun r =>
                decide (r.score.total = best.score.total)).find? fun r =>
              r.variant.values.language.any fun c => (l.specificity c).isSome).getD best) := by
  have hc := clearTotals_candidates hfin hapart
  cases hrank : n.rank accepted variants with
  | nil =>
      have hnone : n.select accepted variants language = none := by
        unfold select
        rw [tied, rank_eq_nil_iff.mp hrank]
        cases language.or n.settings.defaultLanguage with
        | none => rfl
        | some l => rfl
      refine ⟨⟨fun _ => rfl, fun _ => hnone⟩, ?_⟩
      intro best hbest
      cases hbest
  | cons first rest =>
      have htied := tied_eq_filter_rank hc hrank
      rw [hrank] at htied
      have hhead : (n.tied accepted variants).head? = some first := by
        rw [htied, List.filter_cons_of_pos (by simp)]
        rfl
      have hselect := preferLanguage_eq_getD (language.or n.settings.defaultLanguage) hhead
      rw [← select, htied] at hselect
      refine ⟨⟨fun h => ?_, fun h => by cases h⟩, ?_⟩
      · rw [hselect] at h
        cases h
      · intro best hbest
        obtain rfl : first = best := by simpa using hbest
        rw [hselect]
        simp only [speaks_eq_any]

end Negotiator

/-! ### Three pages in two languages -/

namespace Pages

/-- Pages are wanted as text, and half as much as data. -/
def accepted : Preferences :=
  { Preferences.unset with
    mediaType := some [⟨.applicationJson, ⟨Binary.ofRatio .single 1 2, by decide, by decide⟩⟩,
      ⟨.textHtml, .highest⟩] }

def french : LanguageTag := .ofTag "fr".toList
def english : LanguageTag := .ofTag "en".toList

/-- An early loser and two pages that tie. -/
def variants : List Variant :=
  [⟨⟨some .applicationJson, some english, none, none⟩, by decide⟩,
    ⟨⟨some .textHtml, some french, none, none⟩, by decide⟩,
    ⟨⟨some .textHtml, some english, none, none⟩, by decide⟩]

/-- The second of the tied pages is in the language asked for. -/
theorem select_english :
    (∀ v ∈ variants, (Negotiator.standard.score accepted v).acceptable = true →
      (Negotiator.standard.score accepted v).total.isFinite = true) ∧
    (∀ v ∈ variants, ∀ w ∈ variants, (Negotiator.standard.score accepted v).acceptable = true →
      (Negotiator.standard.score accepted w).acceptable = true →
        (Negotiator.standard.score accepted v).total =
          (Negotiator.standard.score accepted w).total ∨
        2 / 10 ^ 6 < |(Negotiator.standard.score accepted v).total.value -
          (Negotiator.standard.score accepted w).total.value|) ∧
    (Negotiator.standard.select accepted variants (some english)).map Ranked.position = some 2 ∧
    ∃ best ∈ (Negotiator.standard.rank accepted variants).head?,
      Negotiator.standard.select accepted variants (some english) =
        some ((((Negotiator.standard.rank accepted variants).filter fun r =>
            decide (r.score.total = best.score.total)).find? fun r =>
          r.variant.values.language.any fun c => (english.specificity c).isSome).getD best) := by
  have hfin : ∀ v ∈ variants, (Negotiator.standard.score accepted v).acceptable = true →
      (Negotiator.standard.score accepted v).total.isFinite = true := by decide +kernel
  have hapart : ∀ v ∈ variants, ∀ w ∈ variants,
      (Negotiator.standard.score accepted v).acceptable = true →
      (Negotiator.standard.score accepted w).acceptable = true →
        (Negotiator.standard.score accepted v).total =
          (Negotiator.standard.score accepted w).total ∨
        2 / 10 ^ 6 < |(Negotiator.standard.score accepted v).total.value -
          (Negotiator.standard.score accepted w).total.value| := by decide +kernel
  have hposition : (Negotiator.standard.select accepted variants (some english)).map
      Ranked.position = some 2 := by decide +kernel
  obtain ⟨hnone, hsome⟩ := Negotiator.select_eq_rank_preferred Negotiator.standard accepted variants
    (some english) hfin hapart
  refine ⟨hfin, hapart, hposition, ?_⟩
  cases hrank : Negotiator.standard.rank accepted variants with
  | nil =>
      rw [hnone.mpr hrank] at hposition
      cases hposition
  | cons best rest =>
      rw [hrank] at hsome
      exact ⟨best, rfl, hsome best rfl⟩

end Pages

end ContentNegotiation
