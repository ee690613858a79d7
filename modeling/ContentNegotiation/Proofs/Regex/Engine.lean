import ContentNegotiation.Proofs.Regex.Group
import ContentNegotiation.Proofs.Regex.Search

/-!
# The reader and the search as an engine

The reader and the search make an engine with the documented syntax.  What a source means is taken
from the expression that is read.

* `tied` — the expression that is searched for where another one is tied to both ends of a text.
* `Means` — what the expression of a source matches.

Principal results: `read_of_read_tied` (how a tied source is read) and `engine_documented`.
-/

namespace ContentNegotiation

namespace Regex

/-! ## Tied expressions -/

/-- The expression of a source that is tied to both ends of a text. -/
def tied (r : Regex) : Regex :=
  .sequence (.assertion .textStart) (.sequence r (.assertion .textEnd))

/-- A row is nested as deeply as each of its parts. -/
theorem le_rowHeight {h : Nat} {heights : List Nat} (hh : h ∈ heights) :
    h ≤ rowHeight heights := by
  fun_cases rowHeight heights with
  | case1 => exact absurd hh List.not_mem_nil
  | case2 k => exact (List.mem_singleton.mp hh).le
  | case3 =>
      rw [List.foldl_max]
      have hmax := List.le_max?_getD_of_mem (k := 0) hh
      omega

/-- Behind the group of a tied source only the end of the text is left to assert. -/
theorem read_of_read_tied {source : Text} {w : Regex}
    (hsource : (read source).isSome ∨ ')' ∉ source) (h : read (RegexEngine.tied source) = some w) :
    ∃ r, read source = some r ∧ read (RegexEngine.group source) = some r ∧ w = tied r := by
  obtain ⟨all, i, hall, hnames, hi, hheight, rfl⟩ := read_eq_some_iff.mp h
  obtain ⟨q, hcuts, hq⟩ := tokens_eq_some_iff.mp hall
  have hopen : Cuts ⟨false, [], RegexEngine.tied source⟩ [.caret, .openGroup none []]
      ⟨false, [false], source ++ [')', '$']⟩ := .cons rfl (.cons rfl .nil)
  obtain ⟨ts, rfl, hrest⟩ := hopen.exists_append hcuts hq
  obtain ⟨inner, behind, last, rfl, hcontent, hgroup, hbehind, hitem⟩ :=
    exists_content hsource (by simp) hrest hi
  have hdollar : Cuts ⟨false, [], ['$']⟩ [.dollar] ⟨false, [], []⟩ := .cons rfl .nil
  obtain ⟨rest, rfl, hend⟩ := hdollar.exists_append hbehind hq
  obtain rfl := hend.of_end rfl
  cases hitem
  have hrow : last.content.height + 1 ≤ rowHeight [0, last.content.height + 1, 0] :=
    le_rowHeight (by simp)
  have hgroupHeight : last.content.height + 1 ≤ heightLimit := hrow.trans hheight
  have hinnerNames : (groupNames inner).Nodup := by
    simpa [groupNames] using hnames
  exact ⟨last.content.meaning, hcontent.read hinnerNames (Nat.le_of_succ_le hgroupHeight),
    hcontent.read_group hgroup hinnerNames hgroupHeight, rfl⟩

theorem matches_textStart_iff (t : Text) (i j : Nat) :
    i ≤ t.length ∧ (assertion .textStart).Matches t i j ↔ i = 0 ∧ j = 0 := by
  simp only [Matches, Assertion.holds, Option.isNone_iff_eq_none, List.getLast?_eq_none_iff,
    List.take_eq_nil_iff]
  constructor
  · rintro ⟨-, rfl, hi, rfl | rfl⟩
    · exact ⟨rfl, rfl⟩
    · exact ⟨Nat.le_zero.mp hi, Nat.le_zero.mp hi⟩
  · rintro ⟨rfl, rfl⟩
    exact ⟨Nat.zero_le _, rfl, Nat.zero_le _, Or.inl rfl⟩

theorem matches_textEnd_iff (t : Text) (i j : Nat) :
    i ≤ t.length ∧ (assertion .textEnd).Matches t i j ↔ i = t.length ∧ j = t.length := by
  simp only [Matches, Assertion.holds, Option.isNone_iff_eq_none, List.getElem?_eq_none_iff]
  omega

/-- A tied expression matches what it ties, with the ends of the text on both sides. -/
theorem matches_tied_iff (r : Regex) (t : Text) (i j : Nat) :
    i ≤ t.length ∧ (tied r).Matches t i j ↔ ∃ k l, (i = 0 ∧ k = 0) ∧
      (k ≤ t.length ∧ r.Matches t k l) ∧ l = t.length ∧ j = t.length := by
  constructor
  · rintro ⟨hi, k, hstart, l, hmatch, hend⟩
    obtain ⟨rfl, rfl⟩ := (matches_textStart_iff t i k).mp ⟨hi, hstart⟩
    have hforward := forward_matches t r 0 l hmatch
    exact ⟨0, l, ⟨rfl, rfl⟩, ⟨hi, hmatch⟩, (matches_textEnd_iff t l j).mp ⟨by omega, hend⟩⟩
  · rintro ⟨k, l, ⟨rfl, rfl⟩, ⟨hi, hmatch⟩, hends⟩
    exact ⟨hi, 0, ((matches_textStart_iff t 0 0).mpr ⟨rfl, rfl⟩).2, l, hmatch,
      ((matches_textEnd_iff t l j).mpr hends).2⟩

/-! ## The engine -/

/-- The source is an expression that matches the text between two positions. -/
def Means (source t : Text) (i j : Nat) : Prop :=
  ∃ r, read source = some r ∧ i ≤ t.length ∧ r.Matches t i j

theorem means_iff {source : Text} {r : Regex} (h : read source = some r) (t : Text) (i j : Nat) :
    Means source t i j ↔ i ≤ t.length ∧ r.Matches t i j := by
  simp [Means, h]

theorem means_caret_iff (t : Text) (i j : Nat) : Means ['^'] t i j ↔ i = 0 ∧ j = 0 :=
  (means_iff (r := .assertion .textStart) rfl t i j).trans (matches_textStart_iff t i j)

theorem means_dollar_iff (t : Text) (i j : Nat) :
    Means ['$'] t i j ↔ i = t.length ∧ j = t.length :=
  (means_iff (r := .assertion .textEnd) rfl t i j).trans (matches_textEnd_iff t i j)

attribute [local instance] engine

/-- **The reader and the search make an engine with the documented syntax.** -/
theorem engine_documented :
    RegexEngine.Documented (fun source => (read source).isSome = true) Means := by
  constructor
  case valid =>
    intro source r hr
    rw [show read source = some r from hr]
    rfl
  case search =>
    intro source r hr t
    show r.isFoundIn t = true ↔ _
    simp only [isFoundIn_iff, means_iff hr]
    constructor
    · rintro ⟨i, j, hi, hmatch⟩
      have hforward := forward_matches t r i j hmatch
      exact ⟨i, j, by omega, by omega, hi, hmatch⟩
    · rintro ⟨i, j, -, -, hi, hmatch⟩
      exact ⟨i, j, hi, hmatch⟩
  case start => exact means_caret_iff
  case finish => exact means_dollar_iff
  case grouping =>
    intro source hsource hgroup t i j
    obtain ⟨w, hw⟩ := Option.isSome_iff_exists.mp hgroup
    rw [means_iff hw, means_iff (read_of_read_group (Or.inl hsource) hw)]
  case content =>
    intro source hclose hgroup
    obtain ⟨w, hw⟩ := Option.isSome_iff_exists.mp hgroup
    rw [read_of_read_group (Or.inr hclose) hw]
    rfl
  case sequence =>
    intro source hsource htied
    obtain ⟨w, hw⟩ := Option.isSome_iff_exists.mp htied
    obtain ⟨r, hr, hgroup, rfl⟩ := read_of_read_tied hsource hw
    rw [hgroup]
    refine ⟨rfl, fun t i j => ?_⟩
    simp only [means_iff hw, means_iff hgroup, means_caret_iff, means_dollar_iff]
    exact matches_tied_iff r t i j

end Regex

end ContentNegotiation
