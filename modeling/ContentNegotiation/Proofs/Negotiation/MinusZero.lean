import ContentNegotiation.Preference.Header
import ContentNegotiation.Proofs.Negotiation.Ranking
import ContentNegotiation.Proofs.Negotiation.Restated

/-!
# Qualities of minus zero

Minus zero is a quality and says no more than zero does.  Scores compare numbers by value, so nothing
that is accepted or selected depends on the sign.  The ranking does not: its order puts minus zero
below zero, and where some weight is zero, one total can be the one and another the other
(`Reordered.minus_zero_sinks`).

* `Preferences.unsigned` — the preferences with zero in place of every minus zero.
* `Negotiator.isNegative_total_iff` — when a total of zero is minus zero.
* `Ranked.Sinks`, `Ranked.InPlace` — a total of minus zero before one of zero, and totals of one
  value in input order.
* `Negotiator.totalAt`, `Negotiator.Ahead` — the totals by place, and the order by their values in
  which equal ones keep their places.

Principal results: `Negotiator.score_unsigned_alike` (scores differ in signs of zeros at most),
`Negotiator.rank_inPlace_iff` and `Negotiator.positions_unsigned_iff` (when the ranking differs),
`Negotiator.rank_inPlace_of_weights_pos` (never, under weights above zero), together
`Negotiator.minus_zero_only_reorders`.
-/

namespace ContentNegotiation

/-! ## Zero in place of minus zero -/

namespace Quality

/-- The quality, or zero in place of minus zero. -/
def unsigned (q : Quality) : Quality :=
  if q.value = Binary.zero.negate then .lowest else q

theorem alike_unsigned (q : Quality) : q.value.Alike q.unsigned.value := by
  unfold unsigned
  split
  · rename_i h
    rw [h]
    exact .zeros true false
  · exact .refl _

theorem eq_minus_zero_of_isNegative {q : Quality} (h : q.value.isNegative = true) :
    q.value = Binary.zero.negate := by
  have hnonneg := q.nonNegative.exact_nonneg
  cases hvalue : q.value with
  | nan => exact absurd hvalue q.ne_nan
  | number s m =>
      rw [hvalue] at h hnonneg
      obtain rfl : s = true := h
      have hzero : (Binary.number true m : Single).exact = 0 := by
        simp only [Binary.exact, if_true] at hnonneg ⊢
        omega
      exact Binary.eq_number_zero (by simp) hzero

theorem isNegative_unsigned (q : Quality) : q.unsigned.value.isNegative = false := by
  unfold unsigned
  split
  · rfl
  · rename_i hne
    exact Bool.eq_false_iff.mpr fun h => hne (eq_minus_zero_of_isNegative h)

end Quality

/-- The list with zero in place of every minus zero. -/
def AcceptList.unsigned {α : Type} (l : AcceptList α) : AcceptList α :=
  l.map fun e => ⟨e.value, e.quality.unsigned⟩

/-- The preferences with zero in place of every minus zero. -/
def Preferences.unsigned (p : Preferences) : Preferences :=
  p.map fun accepted => accepted.map AcceptList.unsigned

theorem Preferences.get_unsigned (p : Preferences) (a : Axis) :
    p.unsigned.get a = (p.get a).map AcceptList.unsigned := by
  cases a <;> rfl

/-! ## One axis -/

namespace AxisScore

variable {α : Type} [AxisValue α]

/-- Matches that agree but for the sign of a zero quality. -/
def HitAlike (h h' : Single × Specificity) : Prop :=
  h.1.Alike h'.1 ∧ h.2 = h'.2

theorem hits_unsigned_alike (l : AcceptList α) (v : α) :
    List.Forall₂ HitAlike (hits l v) (hits l.unsigned v) := by
  rw [hits, hits, AcceptList.unsigned, List.filterMap_map]
  refine List.rel_filterMap (R := Eq) ?_ (List.forall₂_eq_eq_eq ▸ rfl)
  rintro e _ rfl
  show Option.Rel HitAlike ((AxisValue.specificity e.value v).map _)
    ((AxisValue.specificity e.value v).map _)
  cases AxisValue.specificity e.value v with
  | none => exact .none
  | some s => exact .some ⟨e.quality.alike_unsigned, rfl⟩

theorem keepBetter_alike {best best' : Option (Single × Specificity)}
    (hbest : Option.Rel HitAlike best best') {new new' : Single × Specificity}
    (hnew : HitAlike new new') :
    Option.Rel HitAlike (keepBetter best new) (keepBetter best' new') := by
  cases hbest with
  | none => exact .some hnew
  | @some old old' hold =>
      have hbetter : better new old = better new' old' := by
        rw [better, better, hold.1.less_eq hnew.1, hnew.1.sameValue_eq hold.1, hold.2, hnew.2]
      rw [keepBetter, keepBetter, hbetter]
      split
      · exact .some hnew
      · exact .some hold

/-- **The score on an axis differs in the sign of a zero at most.** -/
theorem of_unsigned_alike (accepted : Option (AcceptList α)) (value : Option α) :
    Alike (AxisScore.of accepted value) (AxisScore.of (accepted.map AcceptList.unsigned) value) := by
  cases value with
  | none =>
      rw [of_none, of_none]
      exact ⟨.refl _, rfl⟩
  | some v =>
      rcases accepted with - | ⟨- | ⟨e, l⟩⟩
      · exact ⟨.refl _, rfl⟩
      · exact ⟨.refl _, rfl⟩
      · have hkeep : Relator.LiftFun (Option.Rel HitAlike)
            (Relator.LiftFun HitAlike (Option.Rel HitAlike)) keepBetter keepBetter :=
          fun _ _ hbest _ _ hnew => keepBetter_alike hbest hnew
        have hbest := List.rel_foldl hkeep .none (hits_unsigned_alike (e :: l) v)
        show Alike (AxisScore.of (some (e :: l)) (some v))
          (AxisScore.of (some (AcceptList.unsigned (e :: l))) (some v))
        rw [AcceptList.unsigned, List.map_cons] at hbest ⊢
        rw [AxisScore.of, AxisScore.of]
        generalize (hits _ v).foldl keepBetter none = best at hbest ⊢
        generalize (hits _ v).foldl keepBetter none = best' at hbest ⊢
        cases hbest with
        | none => exact ⟨.refl _, rfl⟩
        | some h => exact ⟨h.1, congrArg some h.2⟩

theorem hasConcreteEntry_unsigned (accepted : Option (AcceptList α)) :
    accepted.any AcceptList.hasConcreteEntry =
      (accepted.map AcceptList.unsigned).any AcceptList.hasConcreteEntry := by
  cases accepted with
  | none => rfl
  | some l => simp [AcceptList.hasConcreteEntry, AcceptList.unsigned, List.any_map, Function.comp_def]

theorem isNegative_of_unsigned (accepted : Option (AcceptList α)) (value : Option α) :
    (AxisScore.of (accepted.map AcceptList.unsigned) value).quality.isNegative = false := by
  rcases of_cases (accepted.map AcceptList.unsigned) value with
    ⟨h, -⟩ | ⟨l, v, haccepted, -, ⟨h, -⟩ | ⟨best, h, htops⟩⟩
  · rw [h]
    rfl
  · rw [h]
    rfl
  · obtain ⟨e, he, s, -, hbest⟩ := mem_hits_iff.mp htops.mem
    obtain ⟨l', -, rfl⟩ := Option.map_eq_some_iff.mp haccepted
    obtain ⟨e', -, rfl⟩ := List.mem_map.mp he
    rw [h, hbest]
    exact e'.quality.isNegative_unsigned

end AxisScore

/-! ## Totals of zero -/

namespace Negotiator

variable {n : Negotiator} {p : Preferences} {variants : List Variant}

theorem score_unsigned_alike (n : Negotiator) (p : Preferences) (v : Variant) :
    (n.score p v).Alike (n.score p.unsigned v) := by
  refine n.score_alike_of_axes (fun a => ?_) fun a => ?_
  · rw [Preferences.get_unsigned]
    exact AxisScore.of_unsigned_alike _ _
  · rw [Preferences.get_unsigned]
    exact AxisScore.hasConcreteEntry_unsigned _

/-- What an axis contributes to the total. -/
def term (n : Negotiator) (p : Preferences) (v : Variant) (a : Axis) : Single :=
  n.settings.weights.get a * (AxisScore.of (p.get a) (v.values.get a)).quality

theorem total_eq_terms (n : Negotiator) (p : Preferences) (v : Variant) :
    (n.score p v).total = n.term p v .mediaType + n.term p v .language + n.term p v .charset +
      n.term p v .coding :=
  rfl

theorem usable_get (n : Negotiator) (a : Axis) : Weights.usable (n.settings.weights.get a) = true := by
  have h := n.allUsable
  cases a with
  | mediaType => exact h.mediaType
  | language => exact h.language
  | charset => exact h.charset
  | coding => exact h.coding

theorem term_nonNegative (n : Negotiator) (p : Preferences) (v : Variant) (a : Axis) :
    (n.term p v a).NonNegative := by
  obtain ⟨q, hq⟩ := AxisScore.exists_quality (p.get a) (v.values.get a)
  rw [term, hq]
  exact Weights.term_nonNegative (n.usable_get a) q

theorem isNegative_term (n : Negotiator) (p : Preferences) (v : Variant) (a : Axis) :
    (n.term p v a).isNegative = ((n.settings.weights.get a).isNegative !=
      (AxisScore.of (p.get a) (v.values.get a)).quality.isNegative) := by
  obtain ⟨q, hq⟩ := AxisScore.exists_quality (p.get a) (v.values.get a)
  rw [term, hq]
  exact Binary.isNegative_mul (Weights.nonNegative_of_usable (n.usable_get a)).2 q.isFinite

/-- **A total of zero is minus zero if every axis contributes minus zero.** -/
theorem isNegative_total_iff (n : Negotiator) {v : Variant} (h : (n.score p v).total.exact = 0) :
    (∀ a, (n.term p v a).exact = 0) ∧
      ((n.score p v).total.isNegative = true ↔ ∀ a, (n.term p v a).isNegative = true) := by
  have hterm := n.term_nonNegative p v
  have hpair := (hterm .mediaType).add (hterm .language)
  have hthree := hpair.add (hterm .charset)
  obtain ⟨hzero, ho⟩ := hthree.exact_eq_zero_of_add (hterm .coding) h
  obtain ⟨hzero', hc⟩ := hpair.exact_eq_zero_of_add (hterm .charset) hzero
  obtain ⟨hm, hl⟩ := (hterm .mediaType).exact_eq_zero_of_add (hterm .language) hzero'
  have hsign : (n.score p v).total.isNegative = ((((n.term p v .mediaType).isNegative &&
      (n.term p v .language).isNegative) && (n.term p v .charset).isNegative) &&
      (n.term p v .coding).isNegative) := by
    rw [← (hterm .mediaType).isNegative_add (hterm .language) hzero',
      ← hpair.isNegative_add (hterm .charset) hzero]
    exact hthree.isNegative_add (hterm .coding) h
  refine ⟨Axis.forall_iff.mpr ⟨hm, hl, hc, ho⟩, ?_⟩
  rw [hsign, Axis.forall_iff]
  simp only [Bool.and_eq_true, and_assoc]

/-- **Without qualities of minus zero, totals of one value are one number**: the sign of a zero is
that of the weights. -/
theorem total_unsigned_inj (n : Negotiator) {v w : Variant}
    (h : (n.score p.unsigned v).total.exact = (n.score p.unsigned w).total.exact) :
    (n.score p.unsigned v).total = (n.score p.unsigned w).total := by
  have hv := n.total_nonNegative p.unsigned v
  have hw := n.total_nonNegative p.unsigned w
  rcases Int.lt_or_eq_of_le hw.exact_nonneg with hpos | hzero
  · exact Binary.eq_of_exact_eq h hpos
  · have hsign : ∀ u a, (n.term p.unsigned u a).isNegative =
        (n.settings.weights.get a).isNegative := by
      intro u a
      rw [isNegative_term, Preferences.get_unsigned, AxisScore.isNegative_of_unsigned]
      exact Bool.xor_false _
    have hiff := (n.isNegative_total_iff (h.trans hzero.symm)).2
    have hiff' := (n.isNegative_total_iff hzero.symm).2
    simp only [hsign] at hiff hiff'
    rw [Binary.eq_number_zero hv.ne_nan (h.trans hzero.symm),
      Binary.eq_number_zero hw.ne_nan hzero.symm, Bool.eq_iff_iff.mpr (hiff.trans hiff'.symm)]

end Negotiator

/-! ## Wildcards -/

namespace AxisScore

variable {a : Axis} {l : AcceptList a.Value}

theorem specificity_of_isWildcard {e : a.Value} (h : AxisValue.isWildcard e = true) (v : a.Value) :
    AxisValue.specificity e v = some .wildcard := by
  cases a with
  | mediaType => exact if_pos h
  | language => exact if_pos h
  | charset => exact if_pos h
  | coding => exact if_pos h

/-- A list of wildcards scores all values alike. -/
theorem of_eq_of_wildcards (h : AcceptList.hasConcreteEntry l = false) (v w : a.Value) :
    AxisScore.of (some l) (some v) = AxisScore.of (some l) (some w) := by
  have hwild : ∀ e ∈ l, AxisValue.isWildcard e.value = true := by
    simpa [AcceptList.hasConcreteEntry] using h
  have hhits : hits l v = hits l w := by
    refine List.filterMap_congr fun e he => ?_
    rw [specificity_of_isWildcard (hwild e he), specificity_of_isWildcard (hwild e he)]
  cases l with
  | nil => rfl
  | cons e l => rw [AxisScore.of, AxisScore.of, hhits]

/-- An axis that does not reject minus zero has wildcards alone in its list, and a value. -/
theorem wildcards_of_isNegative {accepted : Option (AcceptList a.Value)} {value : Option a.Value}
    (hneg : (AxisScore.of accepted value).quality.isNegative = true)
    (hkept : rejects accepted (AxisScore.of accepted value) = false) :
    ∃ l v, accepted = some l ∧ value = some v ∧ AcceptList.hasConcreteEntry l = false := by
  obtain ⟨q, hq⟩ := exists_quality accepted value
  rw [hq] at hneg
  have hzero := q.eq_minus_zero_of_isNegative hneg
  rcases of_cases accepted value with ⟨h, -⟩ | ⟨l, v, rfl, rfl, -⟩
  · rw [h] at hq
    rw [hzero] at hq
    exact absurd hq (by decide)
  · refine ⟨l, v, rfl, rfl, ?_⟩
    have hless : Binary.zero.less (Binary.zero.negate : Single) = false := by decide
    rw [rejects, hq, hzero, hless] at hkept
    simpa using hkept

end AxisScore

namespace Negotiator

variable {n : Negotiator} {p q : Preferences} {variants : List Variant}

/-- **Under weights above zero, all that is acceptable and has a total of zero has the same total**,
if one of these totals is minus zero. -/
theorem total_eq_of_minus_zero (hweights : ∀ a, 0 < (n.settings.weights.get a).value) {v w : Variant}
    (hacceptable : (n.score p v).acceptable = true) (hv : (n.score p v).total = Binary.zero.negate)
    (hw : (n.score p w).total.exact = 0) : (n.score p w).total = (n.score p v).total := by
  have hvzero : (n.score p v).total.exact = 0 := by
    rw [hv]
    rfl
  have hvneg : ∀ a, (n.term p v a).isNegative = true :=
    (n.isNegative_total_iff hvzero).2.mp (by rw [hv]; rfl)
  have hsame : ∀ a, AxisScore.of (p.get a) (w.values.get a) =
      AxisScore.of (p.get a) (v.values.get a) := by
    intro a
    have hpos := Binary.value_pos_iff.mp (hweights a)
    obtain ⟨hnonneg, hfin⟩ := Weights.nonNegative_of_usable (n.usable_get a)
    have hneg := hvneg a
    rw [isNegative_term, Binary.isNegative_eq_false_of_exact_pos hpos] at hneg
    obtain ⟨l, x, hl, hx, hwild⟩ := AxisScore.wildcards_of_isNegative (by simpa using hneg)
      ((n.acceptable_iff_rejects p v).mp hacceptable a)
    rw [hl, hx]
    cases hy : w.values.get a with
    | none =>
        -- an open axis contributes the weight, which is above zero
        have hterm := (n.isNegative_total_iff hw).1 a
        rw [term, hy, AxisScore.of_none] at hterm
        exact absurd ((hnonneg.exact_mul_one hfin).symm.trans hterm) (Int.ne_of_gt hpos)
    | some y => exact AxisScore.of_eq_of_wildcards hwild y x
  have hterms : ∀ a, n.term p w a = n.term p v a := fun a => by rw [term, hsame a, term]
  rw [total_eq_terms, hterms, hterms, hterms, hterms, ← total_eq_terms]

end Negotiator

/-! ## The ranking -/

/-- A total of minus zero, with a total of zero at a later place. -/
structure Ranked.Sinks (r s : Ranked) : Prop where
  earlier : r.position < s.position
  minusZero : r.score.total = Binary.zero.negate
  zero : s.score.total = Binary.zero

/-- Totals of one value stand in input order. -/
def Ranked.InPlace (r s : Ranked) : Prop :=
  r.score.total.sameValue s.score.total = true → r.position < s.position

/-- Where the sorted order and the order by value part, minus zero has sunk below zero. -/
theorem Ranked.Outranks.exact_lt_or {r s : Ranked} (h : r.Outranks s)
    (hr : r.score.total ≠ .nan) (hs : s.score.total ≠ .nan) :
    s.score.total.exact < r.score.total.exact ∨
      r.score.total = s.score.total ∧ r.position < s.position ∨
      r.score.total = Binary.zero ∧ s.score.total = Binary.zero.negate := by
  rcases h with hkey | hsame
  · have hle := Binary.exact_le_of_orderKey_le hs hr (Int.le_of_lt hkey)
    rcases Int.lt_or_eq_of_le hle with hlt | heq
    · exact Or.inl hlt
    · refine Or.inr (Or.inr ?_)
      generalize r.score.total = x at hkey heq hr ⊢
      generalize s.score.total = y at hkey heq hs ⊢
      cases (Binary.alike_iff hs hr).mpr heq with
      | refl => exact absurd hkey (Int.lt_irrefl _)
      | zeros s t => revert hkey s t; decide
  · exact Or.inr (Or.inl hsame)

theorem VariantScore.Alike.refl (s : VariantScore) : s.Alike s :=
  ⟨⟨.refl _, rfl⟩, ⟨.refl _, rfl⟩, ⟨.refl _, rfl⟩, ⟨.refl _, rfl⟩, .refl _, rfl⟩

namespace Negotiator

variable {n : Negotiator} {p q : Preferences} {variants : List Variant}

/-- Ranked totals of one value stand in input order exactly if no minus zero sinks. -/
theorem rank_inPlace_iff (n : Negotiator) (p : Preferences) (variants : List Variant) :
    (n.rank p variants).Pairwise Ranked.InPlace ↔
      ∀ r ∈ n.candidates p variants, ∀ s ∈ n.candidates p variants, ¬ r.Sinks s := by
  have hperm := n.rank_perm p variants
  have hranked := n.rank_pairwise p variants
  constructor
  · intro h r hr s hs hsinks
    have hapart : (n.rank p variants).Pairwise fun r s => ¬ r.Sinks s ∧ ¬ s.Sinks r := by
      refine (hranked.and h).imp fun {r s} hrs => ⟨fun hsinks => ?_, fun hsinks => ?_⟩
      · rcases hrs.1 with hkey | ⟨hsame, -⟩
        · rw [hsinks.minusZero, hsinks.zero] at hkey
          exact absurd hkey (by decide)
        · rw [hsinks.minusZero, hsinks.zero] at hsame
          exact absurd hsame (by decide)
      · have hplace := hrs.2 (by rw [hsinks.minusZero, hsinks.zero]; decide)
        exact absurd hsinks.earlier (Nat.lt_asymm hplace)
    have hsymm : Std.Symm fun r s : Ranked => ¬ r.Sinks s ∧ ¬ s.Sinks r := ⟨fun _ _ h => h.symm⟩
    have hne : r ≠ s := by
      rintro rfl
      exact absurd hsinks.earlier (Nat.lt_irrefl _)
    exact (hapart.forall (hperm.mem_iff.mpr hr) (hperm.mem_iff.mpr hs) hne).1 hsinks
  · intro h
    have hplaces : (n.rank p variants).Pairwise fun r s => r.position ≠ s.position :=
      ((n.candidates_pairwise p variants).imp Nat.ne_of_lt).perm hperm.symm Ne.symm
    refine (hranked.and hplaces).imp_of_mem fun {r s} hr hs hrs hsame => ?_
    have hrnum := ne_nan_of_mem_rank hr
    have hsnum := ne_nan_of_mem_rank hs
    rcases hrs.1.exact_lt_or hrnum hsnum with hlt | ⟨-, hplace⟩ | ⟨hzero, hminus⟩
    · rw [Binary.sameValue_iff hrnum hsnum] at hsame
      omega
    · exact hplace
    · have hnot := h s (hperm.mem_iff.mp hs) r (hperm.mem_iff.mp hr)
      refine Nat.lt_of_le_of_ne (Nat.not_lt.mp fun hlt => hnot ⟨hlt, hminus, hzero⟩) hrs.2

/-! ## Places -/

/-- The value of the total of the variant at a place. -/
def totalAt (n : Negotiator) (p : Preferences) (variants : List Variant) (i : Nat) : Int :=
  (variants[i]?.map fun v => (n.score p v).total.exact).getD 0

/-- The order of places by the values of their totals, in which equal ones stay as they are. -/
def Ahead (n : Negotiator) (p : Preferences) (variants : List Variant) (i j : Nat) : Prop :=
  n.totalAt p variants j < n.totalAt p variants i ∨
    n.totalAt p variants i = n.totalAt p variants j ∧ i < j

theorem totalAt_position {r : Ranked} (hr : r ∈ n.candidates p variants) :
    n.totalAt p variants r.position = r.score.total.exact := by
  obtain ⟨hplace, hscore, -⟩ := mem_candidates_iff.mp hr
  rw [totalAt, hplace, hscore]
  rfl

theorem totalAt_alike (h : ∀ v, (n.score p v).Alike (n.score q v)) (variants : List Variant)
    (i : Nat) : n.totalAt p variants i = n.totalAt q variants i := by
  rw [totalAt, totalAt]
  cases variants[i]? with
  | none => rfl
  | some v => exact (h v).total.exact_eq

/-- The places of a ranking are in the order by value exactly if totals of one value are in place. -/
theorem positions_ahead_iff (h : ∀ v, (n.score p v).Alike (n.score q v)) (variants : List Variant) :
    ((n.rank q variants).map Ranked.position).Pairwise (n.Ahead p variants) ↔
      (n.rank q variants).Pairwise Ranked.InPlace := by
  have hranked := n.rank_pairwise q variants
  have hahead : ∀ r ∈ n.rank q variants, ∀ s ∈ n.rank q variants,
      n.Ahead p variants r.position s.position ↔ s.score.total.exact < r.score.total.exact ∨
        r.score.total.exact = s.score.total.exact ∧ r.position < s.position := by
    intro r hr s hs
    rw [Ahead, totalAt_alike h, totalAt_alike h,
      totalAt_position ((n.rank_perm q variants).mem_iff.mp hr),
      totalAt_position ((n.rank_perm q variants).mem_iff.mp hs)]
  rw [List.pairwise_map]
  constructor
  · intro hplaces
    refine hplaces.imp_of_mem fun {r s} hr hs hrs hsame => ?_
    rw [Binary.sameValue_iff (ne_nan_of_mem_rank hr) (ne_nan_of_mem_rank hs)] at hsame
    rcases (hahead r hr s hs).mp hrs with hlt | ⟨-, hplace⟩
    · omega
    · exact hplace
  · intro hinPlace
    refine (hranked.and hinPlace).imp_of_mem fun {r s} hr hs hrs => (hahead r hr s hs).mpr ?_
    have hrnum := ne_nan_of_mem_rank hr
    have hsnum := ne_nan_of_mem_rank hs
    have hle := (Binary.atMost_iff hsnum hrnum).mp (hrs.1.atMost hrnum hsnum)
    rcases Int.lt_or_eq_of_le hle with hlt | heq
    · exact Or.inl hlt
    · exact Or.inr ⟨heq.symm, hrs.2 ((Binary.sameValue_iff hrnum hsnum).mpr heq.symm)⟩

theorem candidates_positions_eq (h : ∀ v, (n.score p v).Alike (n.score q v))
    (variants : List Variant) :
    (n.candidates p variants).map Ranked.position = (n.candidates q variants).map Ranked.position := by
  rw [← List.forall₂_eq_eq_eq, List.forall₂_map_left_iff, List.forall₂_map_right_iff]
  exact (n.candidates_alike h variants).imp fun _ _ hrs => hrs.position

/-- Where an acceptable total is minus zero, it is enough that no total is zero. -/
theorem rank_inPlace_of_ne_zero (variants : List Variant)
    (h : ∀ v w, (n.score p v).acceptable = true → (n.score p v).total = Binary.zero.negate →
      (n.score p w).total ≠ Binary.zero) :
    (n.rank p variants).Pairwise Ranked.InPlace := by
  refine (n.rank_inPlace_iff p variants).mpr fun r hr s hs hsinks => ?_
  obtain ⟨-, hrscore, hacceptable⟩ := mem_candidates_iff.mp hr
  obtain ⟨-, hsscore, -⟩ := mem_candidates_iff.mp hs
  exact h r.variant s.variant hacceptable (hrscore ▸ hsinks.minusZero) (hsscore ▸ hsinks.zero)

/-- Without minus zeros totals of one value are in place. -/
theorem rank_unsigned_inPlace (n : Negotiator) (p : Preferences) (variants : List Variant) :
    (n.rank p.unsigned variants).Pairwise Ranked.InPlace := by
  refine rank_inPlace_of_ne_zero variants fun v w _ hminus hzero => ?_
  have hsame := n.total_unsigned_inj (p := p) (v := v) (w := w) (by rw [hminus, hzero]; decide)
  rw [hminus, hzero] at hsame
  exact absurd hsame (by decide)

/-- **The ranking is the same without signs exactly if totals of one value are in place.** -/
theorem positions_unsigned_iff (n : Negotiator) (p : Preferences) (variants : List Variant) :
    (n.rank p variants).map Ranked.position = (n.rank p.unsigned variants).map Ranked.position ↔
      (n.rank p variants).Pairwise Ranked.InPlace := by
  have hscores := n.score_unsigned_alike p
  have hunsigned := (positions_ahead_iff hscores variants).mpr (n.rank_unsigned_inPlace p variants)
  rw [← positions_ahead_iff (fun v => VariantScore.Alike.refl (n.score p v)) variants]
  constructor
  · intro heq
    rw [heq]
    exact hunsigned
  · intro h
    have hperm : ((n.rank p variants).map Ranked.position).Perm
        ((n.rank p.unsigned variants).map Ranked.position) := by
      refine ((n.rank_perm p variants).map _).trans ?_
      rw [candidates_positions_eq hscores]
      exact ((n.rank_perm p.unsigned variants).map _).symm
    refine hperm.eq_of_pairwise (fun i j _ _ hij hji => ?_) h hunsigned
    rw [Ahead] at hij hji
    omega

/-- **Under weights above zero totals of one value are in place.** -/
theorem rank_inPlace_of_weights_pos (hweights : ∀ a, 0 < (n.settings.weights.get a).value)
    (p : Preferences) (variants : List Variant) :
    (n.rank p variants).Pairwise Ranked.InPlace := by
  refine rank_inPlace_of_ne_zero variants fun v w hacceptable hminus hzero => ?_
  have hsame := total_eq_of_minus_zero hweights hacceptable hminus (w := w)
    (by rw [hzero, Binary.exact_zero])
  rw [hminus, hzero] at hsame
  exact absurd hsame (by decide)

/-- **The sign of a zero quality changes the order of the ranking alone.**  With zero in place of
every minus zero, scores, acceptability and selection are the same but for signs of zeros.  The
places of the ranking are the same exactly if totals of one value stand in input order, and that is
so exactly if no acceptable variant of total minus zero comes before one of total zero.  It is so
wherever all weights are above zero. -/
theorem minus_zero_only_reorders (n : Negotiator) (p : Preferences) (variants : List Variant) :
    (∀ v, (n.score p v).Alike (n.score p.unsigned v)) ∧
    (∀ language, Option.Rel Ranked.Alike (n.select p variants language)
      (n.select p.unsigned variants language)) ∧
    ((n.rank p variants).map Ranked.position = (n.rank p.unsigned variants).map Ranked.position ↔
      (n.rank p variants).Pairwise Ranked.InPlace) ∧
    ((n.rank p variants).Pairwise Ranked.InPlace ↔
      ∀ r ∈ n.candidates p variants, ∀ s ∈ n.candidates p variants, ¬ r.Sinks s) ∧
    ((∀ a, 0 < (n.settings.weights.get a).value) →
      (n.rank p variants).Pairwise Ranked.InPlace) :=
  ⟨n.score_unsigned_alike p, n.select_alike_of_score (n.score_unsigned_alike p) variants,
    n.positions_unsigned_iff p variants, n.rank_inPlace_iff p variants,
    fun hweights => rank_inPlace_of_weights_pos hweights p variants⟩

end Negotiator

/-! ### Nothing is wanted, with a sign -/

theorem Negotiator.positions_rank_pair {n : Negotiator} {p : Preferences} {v w : Variant}
    (hv : (n.score p v).acceptable = true) (hw : (n.score p w).acceptable = true) :
    (n.rank p [v, w]).map Ranked.position =
      if (n.score p w).total.orderKey ≤ (n.score p v).total.orderKey then [0, 1] else [1, 0] := by
  have hcandidates : n.candidates p [v, w] = [⟨0, v, n.score p v⟩, ⟨1, w, n.score p w⟩] := by
    simp [candidates, List.zipIdx, hv, hw]
  have hpair : ∀ r s : Ranked, [r, s].mergeSort (fun a b =>
      decide (b.score.total.orderKey ≤ a.score.total.orderKey)) =
        if s.score.total.orderKey ≤ r.score.total.orderKey then [r, s] else [s, r] := by
    intro r s
    simp [List.mergeSort, List.MergeSort.Internal.splitInTwo, List.merge]
  rw [rank, hcandidates, hpair]
  split <;> rfl

namespace Reordered

def accepted : Preferences :=
  { mediaType := some [⟨.all, Echo.minusZero⟩]
    language := some [⟨.all, Echo.minusZero⟩]
    charset := some [⟨.all, Echo.minusZero⟩]
    coding := some [⟨.all, Echo.minusZero⟩] }

/-- The media type does not count. -/
def negotiator : Negotiator :=
  ⟨⟨⟨Binary.zero, Binary.ofNat _ 4, Binary.one, Binary.one⟩, none⟩, by decide⟩

def typed : Variant :=
  ⟨⟨some .textHtml, some Pages.english, some .utf8, some .gzip⟩, by decide⟩

/-- The media type is left open, so its score is one and its term zero without a sign. -/
def untyped : Variant :=
  ⟨⟨none, some Pages.english, some .utf8, some .gzip⟩, by decide⟩

/-- Minus zero is a quality that can be stated, also in a header.  The totals of the two variants
are equal, and yet the second is ranked before the first; without the signs they stand in input
order. -/
theorem minus_zero_sinks :
    readQuality Binary.zero.negate = .ok Echo.minusZero ∧
      AcceptList.readWeight (some "-0".toList) = .ok Echo.minusZero ∧
      (negotiator.score accepted typed).acceptable = true ∧
      (negotiator.score accepted untyped).acceptable = true ∧
      (negotiator.score accepted typed).total.sameValue
        (negotiator.score accepted untyped).total = true ∧
      (negotiator.rank accepted [typed, untyped]).map Ranked.position = [1, 0] ∧
      (negotiator.rank accepted.unsigned [typed, untyped]).map Ranked.position = [0, 1] := by
  have htyped : (negotiator.score accepted typed).acceptable = true := by decide +kernel
  have huntyped : (negotiator.score accepted untyped).acceptable = true := by decide +kernel
  refine ⟨by decide +kernel, by decide +kernel, htyped, huntyped, by decide +kernel, ?_, ?_⟩
  · rw [Negotiator.positions_rank_pair htyped huntyped]
    decide +kernel
  · rw [Negotiator.positions_rank_pair (by decide +kernel) (by decide +kernel)]
    decide +kernel

/-- With the standard weights the places are the same, whether the zeros have signs or not. -/
theorem standard_keeps_places :
    (∀ a, 0 < (Negotiator.standard.settings.weights.get a).value) ∧
      (Negotiator.standard.rank accepted [typed, untyped]).map Ranked.position =
        (Negotiator.standard.rank accepted.unsigned [typed, untyped]).map Ranked.position := by
  have hweights : ∀ a, 0 < (Negotiator.standard.settings.weights.get a).value := by
    rw [Axis.forall_iff]
    decide +kernel
  obtain ⟨-, -, hplaces, -, hpos⟩ :=
    Negotiator.minus_zero_only_reorders .standard accepted [typed, untyped]
  exact ⟨hweights, hplaces.mpr (hpos hweights)⟩

end Reordered

end ContentNegotiation
