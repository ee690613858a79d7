import ContentNegotiation.Proofs.Negotiation.Pass
import ContentNegotiation.Proofs.Negotiation.Total

/-!
# Totals that overflow

Every weight is finite, but their sum need not be.  The total of a variant that is of the highest
quality on every axis is the sum of the weights, and no total is above it: so all totals are finite
exactly if that sum is.

An infinite total ties with nothing, not even with another infinite one, since the difference of
the two is not a number (`Overflowing.english_passed_over`).

* `Gathers` — what the pass keeps beyond `Leads`: a finite best total is tied with every candidate
  that has it, and an infinite one belongs to the first candidate that overflows, alone.
* `gathers_pass` — a pass over any list but the empty one ends in that invariant.

Principal result: `Negotiator.finite_totals_tie`.
-/

namespace ContentNegotiation

/-- The sum of the weights, as the total of four highest qualities is computed. -/
def Weights.sum (w : Weights) : Single :=
  w.combine ⟨Binary.one, Binary.one, Binary.one, Binary.one⟩

/-- The total of a candidate has overflowed. -/
def Ranked.overflows (r : Ranked) : Bool :=
  !r.score.total.isFinite

theorem Ranked.overflows_eq_false {r : Ranked} (h : r.score.total.isFinite = true) :
    r.overflows = false := by
  rw [overflows, h]
  rfl

/-! ## The greatest total -/

namespace Negotiator

/-- **No total is above the sum of the weights.** -/
theorem total_le_sum (n : Negotiator) (accepted : Preferences) (v : Variant) :
    (n.score accepted v).total.exact ≤ n.settings.weights.sum.exact := by
  obtain ⟨q, -, htotal⟩ := n.exists_qualities accepted v
  have hone : Quality.highest.value.value = 1 := by decide +kernel
  have hmost : (q.map Quality.value).AtMost (PerAxis.map (F := fun _ => Quality) Quality.value
      ⟨.highest, .highest, .highest, .highest⟩) :=
    ⟨hone ▸ q.mediaType.value_le_one, hone ▸ q.language.value_le_one,
      hone ▸ q.charset.value_le_one, hone ▸ q.coding.value_le_one⟩
  rw [htotal]
  exact Weights.combine_mono n.allUsable hmost

/-- Some total is the sum of the weights: that of a variant without values. -/
theorem exists_total_eq_sum (n : Negotiator) (accepted : Preferences) :
    ∃ v, (n.score accepted v).total = n.settings.weights.sum := by
  refine ⟨⟨AxisValues.unset, by decide⟩, ?_⟩
  simp only [score, AxisValues.unset, PerAxis.zipWith, PerAxis.map, AxisScore.of_none]
  rfl

/-- **All totals are finite exactly if the sum of the weights is.** -/
theorem totals_isFinite_iff (n : Negotiator) :
    (∀ accepted v, (n.score accepted v).total.isFinite = true) ↔
      n.settings.weights.sum.isFinite = true := by
  constructor
  · intro h
    obtain ⟨v, hv⟩ := n.exists_total_eq_sum Preferences.unset
    rw [← hv]
    exact h _ v
  · intro h accepted v
    exact (n.total_nonNegative accepted v).isFinite_of_le h (n.total_le_sum accepted v)

end Negotiator

/-! ## The pass -/

section Tolerance

variable {x : Single}

/-- The last finite value is further below infinity than the tolerance could carry a sum. -/
theorem isFinite_add_tolerance (hx : x.NonNegative) (hfin : x.isFinite = true) :
    (x + tieTolerance).isFinite = true := by
  have hgap : (Format.single.units (Format.single.infinityRank - 1) : Int) + 2 * toleranceUnits <
      Format.single.units Format.single.infinityRank := by
    rw [toleranceUnits_eq]
    decide
  have hlast : x.exact ≤ Format.single.units (Format.single.infinityRank - 1) := by
    obtain ⟨rank, -, hu⟩ := x.exact_eq_units
    have hlt := Binary.natAbs_exact_lt hfin
    have hrank : rank < Format.single.infinityRank :=
      Format.single.units_strictMono.lt_iff_lt.mp (by omega)
    have hle : Format.single.units rank ≤ Format.single.units (Format.single.infinityRank - 1) :=
      Format.single.units_strictMono.monotone (by omega)
    omega
  have hsum := exact_add_tolerance_le hx
  by_contra hinf
  have heq := (hx.add tieTolerance_nonNegative).eq_infinity (Bool.eq_false_iff.mpr hinf)
  rw [heq, Binary.NonNegative.exact_infinity] at hsum
  omega

end Tolerance

/-- What the pass knows of the candidates whose total is the best one, and of those that overflow. -/
structure Gathers (seen : List Ranked) (l : Negotiator.Leaders) : Prop extends Leads seen l where
  together : l.best.isFinite = true → ∀ r ∈ seen, r.score.total.exact = l.best.exact → r ∈ l.tied
  alone : l.best.isFinite = false → ∃ r, seen.find? Ranked.overflows = some r ∧ l.tied = [r]

section Pass

variable {seen : List Ranked} {l : Negotiator.Leaders} {r : Ranked}

/-- While the best total is finite no candidate has overflowed. -/
theorem Leads.isFinite (h : Leads seen l) (hnum : ∀ s ∈ seen, s.score.total.NonNegative)
    (hbest : l.best.isFinite = true) : ∀ s ∈ seen, s.score.total.isFinite = true := by
  intro s hs
  exact (hnum s hs).isFinite_of_le
    (isFinite_add_tolerance (h.best_nonNegative hnum) hbest) (h.unbeaten s hs)

theorem find?_overflows_single (hr : r.score.total.isFinite = false) :
    [r].find? Ranked.overflows = some r := by
  rw [List.find?_cons, Ranked.overflows, hr]
  rfl

theorem gathers_single (hr : r.score.total.NonNegative) : Gathers [r] ⟨r.score.total, [r]⟩ :=
  ⟨leads_single hr, fun _ _ hs _ => hs, fun hinf => ⟨r, find?_overflows_single hinf, rfl⟩⟩

/-- A candidate with the best total is in the tie list already, or joins it now. -/
theorem together_meet (h : Gathers seen l) (hr : r.score.total.NonNegative)
    (hbest : l.best.NonNegative) (hfin : (l.meet r).best.isFinite = true) :
    ∀ s ∈ seen ++ [r], s.score.total.exact = (l.meet r).best.exact → s ∈ (l.meet r).tied := by
  have hless := Binary.less_iff (hbest.add tieTolerance_nonNegative).ne_nan hr.ne_nan
  intro s hs heq
  rcases meet_cases l r with ⟨hbeyond, hmeet⟩ | ⟨-, ⟨-, hmeet⟩ | ⟨hapart, hmeet⟩⟩ <;>
    rw [hmeet] at hfin heq ⊢
  · rcases List.mem_append.mp hs with hs | hs
    · have hle := h.unbeaten s hs
      have hgreater := hless.mp hbeyond
      exact absurd heq (Int.ne_of_lt (Int.lt_of_le_of_lt hle hgreater))
    · exact hs
  · rcases List.mem_append.mp hs with hs | hs
    · exact List.mem_append_left _ (h.together hfin s hs heq)
    · exact List.mem_append_right _ hs
  · rcases List.mem_append.mp hs with hs | hs
    · exact h.together hfin s hs heq
    · obtain rfl := List.mem_singleton.mp hs
      have hsfin := hr.isFinite_of_le hfin (Int.le_of_eq heq)
      exact absurd (within_of_exact_eq hsfin hfin heq) hapart

/-- The first candidate that overflows is met with a finite best total, and stays alone: nothing is
beyond it, and no difference from it is within the tolerance. -/
theorem alone_meet (h : Gathers seen l) (hnum : ∀ s ∈ seen, s.score.total.NonNegative)
    (hr : r.score.total.NonNegative) (hinf : (l.meet r).best.isFinite = false) :
    ∃ first, (seen ++ [r]).find? Ranked.overflows = some first ∧ (l.meet r).tied = [first] := by
  have hbest := h.best_nonNegative hnum
  have hless := Binary.less_iff (hbest.add tieTolerance_nonNegative).ne_nan hr.ne_nan
  rw [List.find?_append]
  rcases meet_cases l r with ⟨hbeyond, hmeet⟩ | ⟨-, ⟨hwithin, hmeet⟩ | ⟨-, hmeet⟩⟩ <;>
    rw [hmeet] at hinf ⊢
  · have hfin : l.best.isFinite = true := by
      by_contra hover
      have hgreater := hless.mp hbeyond
      rw [hbest.eq_infinity (Bool.eq_false_iff.mpr hover),
        Binary.infinity_add tieTolerance_nonNegative, hr.eq_infinity hinf] at hgreater
      exact Int.lt_irrefl _ hgreater
    have hnone : seen.find? Ranked.overflows = none := by
      rw [List.find?_eq_none]
      intro s hs
      rw [Ranked.overflows_eq_false (h.isFinite hnum hfin s hs)]
      exact Bool.false_ne_true
    refine ⟨r, ?_, rfl⟩
    rw [hnone, Option.none_or]
    exact find?_overflows_single hinf
  · have hfin : l.best.isFinite = true := (isFinite_of_within hwithin).2
    rw [hfin] at hinf
    cases hinf
  · obtain ⟨first, hfirst, htied⟩ := h.alone hinf
    refine ⟨first, ?_, htied⟩
    rw [hfirst]
    rfl

theorem gathers_meet (h : Gathers seen l) (hnum : ∀ s ∈ seen ++ [r], s.score.total.NonNegative) :
    Gathers (seen ++ [r]) (l.meet r) := by
  have hr := hnum r (by simp)
  have hseen : ∀ s ∈ seen, s.score.total.NonNegative :=
    fun s hs => hnum s (List.mem_append_left _ hs)
  exact ⟨leads_meet h.toLeads hnum, together_meet h hr (h.best_nonNegative hseen),
    alone_meet h hseen hr⟩

/-- A pass over any list but the empty one ends in the invariant. -/
theorem gathers_pass {rs : List Ranked} (hne : rs ≠ [])
    (hnum : ∀ r ∈ rs, r.score.total.NonNegative) :
    Gathers rs (rs.foldl Negotiator.Leaders.meet Negotiator.Leaders.none) :=
  pass_induction (fun _ hr => gathers_single hr) (fun _ _ _ h hnum => gathers_meet h hnum) hne hnum

end Pass

namespace Negotiator

variable {n : Negotiator} {accepted : Preferences} {variants : List Variant} {r : Ranked}

/-! ## What ties -/

theorem gathers_tied (hr : r ∈ n.candidates accepted variants) :
    ∃ l, Gathers (n.candidates accepted variants) l ∧ n.tied accepted variants = l.tied :=
  ⟨_, gathers_pass (List.ne_nil_of_mem hr) (n.candidates_nonNegative accepted variants), rfl⟩

/-- A candidate with the same finite total as the first of the tie list is in that list. -/
theorem mem_tied_of_sameValue {leader : Ranked} (hleader : leader ∈ (n.tied accepted variants).head?)
    (hfin : leader.score.total.isFinite = true) (hr : r ∈ n.candidates accepted variants)
    (hsame : r.score.total.sameValue leader.score.total = true) : r ∈ n.tied accepted variants := by
  obtain ⟨l, hl, htied⟩ := gathers_tied hr
  rw [htied] at hleader ⊢
  obtain ⟨first, hfirst, hbest⟩ := hl.headed
  obtain rfl : first = leader := Option.some.inj (hfirst.symm.trans hleader)
  have hnum := n.candidates_nonNegative accepted variants
  have hexact := (Binary.sameValue_iff (hnum r hr).ne_nan
    (hnum first (hl.members (List.mem_of_mem_head? hleader))).ne_nan).mp hsame
  rw [hbest] at hfin hexact
  exact hl.together hfin r hr hexact

/-- The first candidate that overflows makes up the tie list. -/
theorem tied_of_overflows
    (h : (n.candidates accepted variants).find? Ranked.overflows = some r) :
    n.tied accepted variants = [r] := by
  have hr := List.mem_of_find?_eq_some h
  obtain ⟨l, hl, htied⟩ := gathers_tied hr
  have hnum := n.candidates_nonNegative accepted variants
  have hinf : l.best.isFinite = false := by
    by_contra hfin
    have hrfin := hl.isFinite hnum (eq_true_of_ne_false hfin) r hr
    have hover := List.find?_some h
    rw [Ranked.overflows_eq_false hrfin] at hover
    cases hover
  obtain ⟨first, hfirst, halone⟩ := hl.alone hinf
  obtain rfl : r = first := Option.some.inj (h.symm.trans hfirst)
  rw [htied, halone]

/-- A tied candidate in the language asked for is not passed over for one that is not. -/
theorem select_speaks {l : LanguageTag} (hr : r ∈ n.tied accepted variants)
    (hspeaks : speaks l r = true) :
    ∃ s, n.select accepted variants (some l) = some s ∧ speaks l s = true := by
  cases hfind : (n.tied accepted variants).find? (speaks l) with
  | none => exact absurd hspeaks (List.find?_eq_none.mp hfind r hr)
  | some s =>
      refine ⟨s, ?_, List.find?_some hfind⟩
      rw [select, Option.some_or, preferLanguage, Option.bind_some, hfind, Option.some_or]

/-- A preference for a language has no say in a tie list of one. -/
theorem select_of_tied_single (h : n.tied accepted variants = [r]) (language : Option LanguageTag) :
    n.select accepted variants language = some r := by
  cases hselect : n.select accepted variants language with
  | none =>
      rw [select, preferLanguage_eq_none_iff, h] at hselect
      cases hselect
  | some s =>
      obtain ⟨hmem, -⟩ := mem_of_preferLanguage hselect
      rw [h, List.mem_singleton] at hmem
      rw [hmem]

/-- **Finite totals tie when they are equal, and infinite ones never do.**  Every total is a number
between zero and the sum of the weights, so that all totals are finite exactly if that sum is.
A candidate with the same finite total as the first of the tie list is tied with it, and then a
candidate in the language asked for is selected if this one is in it.  But once a total is infinite,
the first candidate that has one is selected, whatever the others are and whatever language is
asked for. -/
theorem finite_totals_tie (n : Negotiator) :
    (∀ accepted v, (n.score accepted v).total.NonNegative ∧
      (n.score accepted v).total.atMost n.settings.weights.sum = true) ∧
    ((∀ accepted v, (n.score accepted v).total.isFinite = true) ↔
      n.settings.weights.sum.isFinite = true) ∧
    ∀ accepted variants,
      (∀ leader ∈ (n.tied accepted variants).head?, leader.score.total.isFinite = true →
        ∀ r ∈ n.candidates accepted variants,
          r.score.total.sameValue leader.score.total = true →
            r ∈ n.tied accepted variants ∧
              ∀ l, speaks l r = true →
                ∃ s, n.select accepted variants (some l) = some s ∧ speaks l s = true) ∧
      ∀ r, (n.candidates accepted variants).find? Ranked.overflows = some r →
        n.tied accepted variants = [r] ∧
          ∀ language, n.select accepted variants language = some r := by
  refine ⟨fun accepted v => ⟨n.total_nonNegative accepted v, ?_⟩, n.totals_isFinite_iff,
    fun accepted variants => ⟨?_, ?_⟩⟩
  · obtain ⟨w, hw⟩ := n.exists_total_eq_sum accepted
    have hsum : n.settings.weights.sum ≠ .nan := hw ▸ (n.total_nonNegative accepted w).ne_nan
    exact (Binary.atMost_iff (n.total_nonNegative accepted v).ne_nan hsum).mpr
      (n.total_le_sum accepted v)
  · intro leader hleader hfin r hr hsame
    have htied := mem_tied_of_sameValue hleader hfin hr hsame
    exact ⟨htied, fun l hspeaks => select_speaks htied hspeaks⟩
  · intro r hr
    have htied := tied_of_overflows hr
    exact ⟨htied, select_of_tied_single htied⟩

end Negotiator

/-! ### Two pages whose totals overflow -/

namespace Overflowing

/-- Half of what a number can hold for the media type, and as much for the language. -/
def negotiator : Negotiator :=
  ⟨⟨⟨Binary.ofNat _ (2 ^ 127), Binary.ofNat _ (2 ^ 127), Binary.one, Binary.one⟩, none⟩, by decide⟩

def french : Variant := ⟨⟨none, some Pages.french, none, none⟩, by decide⟩

def english : Variant := ⟨⟨none, some Pages.english, none, none⟩, by decide⟩

/-- Both totals are infinite, so they are equal, and French is selected where English is asked
for. -/
theorem english_passed_over :
    (negotiator.score Preferences.unset french).total.isFinite = false ∧
      (negotiator.score Preferences.unset english).total.isFinite = false ∧
      (negotiator.score Preferences.unset french).total.sameValue
        (negotiator.score Preferences.unset english).total = true ∧
      (negotiator.select Preferences.unset [french, english] (some Pages.english)).map
        Ranked.position = some 0 := by
  decide +kernel

/-- With the standard weights the two tie and a page in English is selected; with the weights that
overflow it is the first page, whatever language is asked for. -/
theorem standard_selects_english :
    (∃ s, Negotiator.standard.select Preferences.unset [french, english] (some Pages.english) =
      some s ∧ Negotiator.speaks Pages.english s = true) ∧
    ∀ language, (negotiator.select Preferences.unset [french, english] language).map
      Ranked.position = some 0 := by
  constructor
  · obtain ⟨-, -, hties⟩ := Negotiator.finite_totals_tie .standard
    obtain ⟨hfinite, -⟩ := hties Preferences.unset [french, english]
    have hhead : ((Negotiator.standard.tied Preferences.unset [french, english]).head?.map
        fun r => (r.position, r.score.total)) =
          some (0, (Negotiator.standard.score Preferences.unset english).total) := by
      decide +kernel
    obtain ⟨leader, hleader, hfrench⟩ := Option.map_eq_some_iff.mp hhead
    have htotal : leader.score.total =
        (Negotiator.standard.score Preferences.unset english).total := congrArg Prod.snd hfrench
    let second : Ranked := ⟨1, english, Negotiator.standard.score Preferences.unset english⟩
    have hsecond : second ∈ Negotiator.standard.candidates Preferences.unset [french, english] :=
      Negotiator.mem_candidates_iff.mpr ⟨rfl, rfl, by decide +kernel⟩
    obtain ⟨-, hselect⟩ := hfinite leader hleader (by rw [htotal]; decide +kernel) second hsecond
      (by rw [htotal]; decide +kernel)
    exact hselect Pages.english (by decide +kernel)
  · intro language
    have hfirst : ((negotiator.candidates Preferences.unset [french, english]).find?
        Ranked.overflows).map Ranked.position = some 0 := by decide +kernel
    obtain ⟨r, hr, hzero⟩ := Option.map_eq_some_iff.mp hfirst
    obtain ⟨-, -, hties⟩ := Negotiator.finite_totals_tie negotiator
    obtain ⟨-, halone⟩ := hties Preferences.unset [french, english]
    rw [(halone r hr).2 language, Option.map_some, hzero]

end Overflowing

end ContentNegotiation
