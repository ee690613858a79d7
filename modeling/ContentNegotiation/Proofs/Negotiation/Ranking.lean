import ContentNegotiation.Proofs.Negotiation.Score
import ContentNegotiation.Proofs.Negotiation.Selection

/-!
# The ranking

The ranking sorts the acceptable variants by total, and the sort keeps the order of equal ones.

* `Ranked.Outranks` — the order of a ranking: by total, then by place in the list.
* `pairwise_mergeSort_of_key_eq` — sorting by a key keeps any order that holds among equal keys.

Principal results: `Negotiator.rank_pairwise` (every ranking is in its order) and
`Negotiator.rank_lists_acceptable` (it holds every acceptable variant once, and nothing else).
-/

namespace ContentNegotiation

/-- The total is greater, or it is the same number and the place in the list comes first. -/
def Ranked.Outranks (r s : Ranked) : Prop :=
  s.score.total.orderKey < r.score.total.orderKey ∨
    r.score.total = s.score.total ∧ r.position < s.position

theorem Ranked.Outranks.atMost {r s : Ranked} (h : r.Outranks s)
    (hr : r.score.total ≠ .nan) (hs : s.score.total ≠ .nan) :
    s.score.total.atMost r.score.total = true := by
  rw [Binary.atMost_iff hs hr]
  rcases h with hkey | ⟨hsame, -⟩
  · exact Binary.exact_le_of_orderKey_le hs hr (Int.le_of_lt hkey)
  · rw [hsame]

/-! ## The sort -/

section Sorting

variable {α : Type} {R : α → α → Prop}

/-- What holds in every group of a list holds of any two members of one group. -/
theorem pairwise_of_groups (key : α → Int) {l : List α}
    (h : ∀ k, (l.filter fun a => decide (key a = k)).Pairwise R) :
    l.Pairwise fun a b => key a = key b → R a b := by
  induction l with
  | nil => exact .nil
  | cons a l ih =>
      refine List.pairwise_cons.mpr ⟨fun b hb hsame => ?_, ih fun k => ?_⟩
      · have hgroup := h (key a)
        rw [List.filter_cons_of_pos (by simp)] at hgroup
        exact List.rel_of_pairwise_cons hgroup (List.mem_filter.mpr ⟨hb, by simp [hsame]⟩)
      · exact (h k).sublist ((List.sublist_cons_self a l).filter _)

/-- **Sorting by a key keeps the order among equal keys.** -/
theorem pairwise_mergeSort_of_key_eq (key : α → Int) {l : List α} (h : l.Pairwise R) :
    (l.mergeSort fun a b => decide (key b ≤ key a)).Pairwise
      fun a b => key a = key b → R a b := by
  refine pairwise_of_groups key fun k => ?_
  rw [filter_mergeSort_key]
  exact h.filter _

end Sorting

namespace Negotiator

variable {n : Negotiator} {accepted : Preferences} {variants : List Variant}

/-! ## The order of a ranking -/

theorem candidates_pairwise (n : Negotiator) (accepted : Preferences) (variants : List Variant) :
    (n.candidates accepted variants).Pairwise fun r s => r.position < s.position := by
  have hplaces : (variants.zipIdx.map Prod.snd).Pairwise (· < ·) := by
    rw [List.zipIdx_map_snd]
    exact List.pairwise_lt_range'
  rw [List.pairwise_map] at hplaces
  exact List.Pairwise.filter _ (List.pairwise_map.mpr hplaces)

theorem rank_perm (n : Negotiator) (accepted : Preferences) (variants : List Variant) :
    (n.rank accepted variants).Perm (n.candidates accepted variants) :=
  List.mergeSort_perm _ _

/-- **Every ranking is in its order.** -/
theorem rank_pairwise (n : Negotiator) (accepted : Preferences) (variants : List Variant) :
    (n.rank accepted variants).Pairwise Ranked.Outranks := by
  have hsorted := pairwise_mergeSort_key (fun r : Ranked => r.score.total.orderKey)
    (n.candidates accepted variants)
  have hstable := pairwise_mergeSort_of_key_eq (fun r : Ranked => r.score.total.orderKey)
    (n.candidates_pairwise accepted variants)
  refine (hsorted.and hstable).imp fun {r s} h => ?_
  rcases Int.lt_or_eq_of_le h.1 with hlt | heq
  · exact Or.inl hlt
  · exact Or.inr ⟨Binary.orderKey_injective heq.symm, h.2 heq.symm⟩

theorem ne_nan_of_mem_rank {r : Ranked} (h : r ∈ n.rank accepted variants) :
    r.score.total ≠ .nan := by
  obtain ⟨-, hscore, -⟩ := mem_candidates ((n.rank_perm accepted variants).mem_iff.mp h)
  rw [hscore]
  exact (n.total_nonNegative accepted r.variant).ne_nan

/-- **The ranking loses and invents nothing.**  The places that it lists are those of the acceptable
variants, each of them once, and every entry has the variant of its place with the score of that
variant.  Totals do not rise along the ranking, and entries of the same total stand in input
order. -/
theorem rank_lists_acceptable (n : Negotiator) (accepted : Preferences) (variants : List Variant) :
    ((n.rank accepted variants).map Ranked.position).Nodup ∧
    (∀ i, i ∈ (n.rank accepted variants).map Ranked.position ↔
      ∃ v, variants[i]? = some v ∧ (n.score accepted v).acceptable = true) ∧
    (∀ r ∈ n.rank accepted variants,
      variants[r.position]? = some r.variant ∧ r.score = n.score accepted r.variant) ∧
    ((n.rank accepted variants).Pairwise fun r s =>
      s.score.total.atMost r.score.total = true) ∧
    (n.rank accepted variants).Pairwise fun r s =>
      r.score.total = s.score.total → r.position < s.position := by
  have hperm := n.rank_perm accepted variants
  refine ⟨?_, fun i => ?_, fun r hr => ?_, ?_, ?_⟩
  · have hplaces := List.pairwise_map.mpr (n.candidates_pairwise accepted variants)
    exact (hperm.map Ranked.position).nodup_iff.mpr (hplaces.imp Nat.ne_of_lt)
  · rw [(hperm.map Ranked.position).mem_iff, List.mem_map]
    constructor
    · rintro ⟨r, hr, rfl⟩
      obtain ⟨hplace, -, hacceptable⟩ := mem_candidates_iff.mp hr
      exact ⟨r.variant, hplace, hacceptable⟩
    · rintro ⟨v, hplace, hacceptable⟩
      exact ⟨⟨i, v, n.score accepted v⟩, mem_candidates_iff.mpr ⟨hplace, rfl, hacceptable⟩, rfl⟩
  · obtain ⟨hplace, hscore, -⟩ := mem_candidates_iff.mp (hperm.mem_iff.mp hr)
    exact ⟨hplace, hscore⟩
  · exact (n.rank_pairwise accepted variants).imp_of_mem fun hr hs h =>
      h.atMost (ne_nan_of_mem_rank hr) (ne_nan_of_mem_rank hs)
  · refine (n.rank_pairwise accepted variants).imp fun {r s} h hsame => ?_
    rcases h with hkey | ⟨-, hplace⟩
    · rw [hsame] at hkey
      exact absurd hkey (Int.lt_irrefl _)
    · exact hplace

end Negotiator

end ContentNegotiation
