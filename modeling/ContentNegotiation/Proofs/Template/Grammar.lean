import ContentNegotiation.Template.Candidates
import Mathlib.Data.List.Infix

/-!
# The grammar of a variable

What a variable may capture, said without reference to the way candidate spans are listed:

* `Text.Closes` — the parentheses of a text close what is open before it: no prefix closes more
  than is open, and nothing stays open.  `Text.Balanced` is the case of nothing open.
* `Kind.Describes` — the texts of a kind.
* `Slot.Captures` — a non-empty text of the kind, or the empty text if the variable is facultative.

Principal results: `Slot.mem_spans_iff` (the candidate spans are exactly the captures that the
input begins with) and `Slot.spans_pairwise` (they are listed by increasing length, so none twice).
-/

namespace ContentNegotiation

namespace Text

/-- Parentheses close what is open before the text: `depth` of them. -/
structure Closes (depth : Nat) (t : Text) : Prop where
  prefixes : ∀ p, p <+: t → p.count ')' ≤ depth + p.count '('
  settled : t.count ')' = depth + t.count '('

/-- Every parenthesis of the text has its partner in the text. -/
def Balanced (t : Text) : Prop := Closes 0 t

instance (depth : Nat) (t : Text) : Decidable (Closes depth t) :=
  decidable_of_iff ((∀ p ∈ t.inits, p.count ')' ≤ depth + p.count '(') ∧
      t.count ')' = depth + t.count '(')
    ⟨fun h => ⟨fun p hp => h.1 p ((List.mem_inits p t).mpr hp), h.2⟩,
      fun h => ⟨fun p hp => h.prefixes p ((List.mem_inits p t).mp hp), h.settled⟩⟩

instance (t : Text) : Decidable (Balanced t) :=
  inferInstanceAs (Decidable (Closes 0 t))

theorem closes_nil_iff {depth : Nat} : Closes depth [] ↔ depth = 0 := by
  constructor
  · intro h
    have := h.settled
    simp at this
    exact this.symm
  · rintro rfl
    exact ⟨fun p hp => by simp [List.prefix_nil.mp hp], rfl⟩

/-- No prefix of the text closes more than is open before it, `depth` parentheses, or in it. -/
def StaysOpen (depth : Nat) (t : Text) : Prop :=
  ∀ p, p <+: t → p.count ')' ≤ depth + p.count '('

theorem closes_iff {depth : Nat} {t : Text} :
    Closes depth t ↔ StaysOpen depth t ∧ t.count ')' = depth + t.count '(' :=
  ⟨fun h => ⟨h.prefixes, h.settled⟩, fun h => ⟨h.1, h.2⟩⟩

theorem Closes.staysOpen {depth : Nat} {t : Text} (h : Closes depth t) : StaysOpen depth t :=
  h.prefixes

theorem staysOpen_nil (depth : Nat) : StaysOpen depth [] := by
  intro p hp
  simp [List.prefix_nil.mp hp]

theorem count_cons_eq (x c : Char) (t : Text) : (c :: t).count x = [c].count x + t.count x := by
  rw [← List.count_append]
  rfl

/-- What the first character does to the number of open parentheses decides about the rest. -/
theorem staysOpen_cons_iff {depth next : Nat} {c : Char} {t : Text}
    (h : next + [c].count ')' = depth + [c].count '(') :
    StaysOpen depth (c :: t) ↔ StaysOpen next t := by
  constructor
  · intro hc p hp
    have := hc (c :: p) (List.cons_prefix_cons.mpr ⟨rfl, hp⟩)
    rw [count_cons_eq, count_cons_eq '('] at this
    omega
  · intro hc p hp
    rcases List.prefix_cons_iff.mp hp with rfl | ⟨q, rfl, hq⟩
    · simp
    · have := hc q hq
      rw [count_cons_eq, count_cons_eq '(']
      omega

theorem closes_cons_iff {depth next : Nat} {c : Char} {t : Text}
    (h : next + [c].count ')' = depth + [c].count '(') :
    Closes depth (c :: t) ↔ Closes next t := by
  rw [closes_iff, closes_iff, staysOpen_cons_iff h, count_cons_eq, count_cons_eq '(']
  exact and_congr_right fun _ => ⟨fun _ => by omega, fun _ => by omega⟩

theorem closes_open_iff {depth : Nat} {t : Text} :
    Closes depth ('(' :: t) ↔ Closes (depth + 1) t :=
  closes_cons_iff (by simp)

theorem closes_close_iff {depth : Nat} {t : Text} :
    Closes (depth + 1) (')' :: t) ↔ Closes depth t :=
  closes_cons_iff (by simp)

theorem closes_other_iff {depth : Nat} {c : Char} {t : Text} (ho : c ≠ '(') (hc : c ≠ ')') :
    Closes depth (c :: t) ↔ Closes depth t :=
  closes_cons_iff (by simp [ho, hc])

theorem balanced_of_not_mem {t : Text} (ho : '(' ∉ t) (hc : ')' ∉ t) : Balanced t := by
  constructor
  · intro p hp
    rw [List.count_eq_zero_of_not_mem fun h => hc (hp.subset h)]
    exact Nat.zero_le _
  · rw [List.count_eq_zero_of_not_mem ho, List.count_eq_zero_of_not_mem hc]

/-- Nothing is open that the first parenthesis could close. -/
theorem not_closes_zero_close (t : Text) : ¬ Closes 0 (')' :: t) := by
  intro h
  have := h.prefixes [')'] (by simp)
  simp at this

/-- A balanced text does not go on behind the parenthesis that closes another one. -/
theorem Balanced.not_close_isPrefix {c d : Text} (hc : Balanced c) (hd : Balanced d) :
    ¬ c ++ [')'] <+: d := by
  intro h
  have hle := hd.prefixes _ h
  have hsettled := hc.settled
  rw [List.count_append, List.count_append] at hle
  simp at hle
  omega

/-- A balanced text and what follows its closing parenthesis are found in only one way. -/
theorem balanced_append_close_inj {c d s t : Text} (hc : Balanced c) (hd : Balanced d)
    (h : c ++ ')' :: s = d ++ ')' :: t) : c = d ∧ s = t := by
  rcases List.append_eq_append_iff.mp h with ⟨a, rfl, ha⟩ | ⟨a, rfl, ha⟩
  · cases a with
    | nil => exact ⟨(List.append_nil c).symm, (List.cons.inj ha).2⟩
    | cons x a =>
        obtain ⟨rfl, -⟩ := List.cons.inj ha
        exact absurd ⟨a, by simp⟩ (hc.not_close_isPrefix hd)
  · cases a with
    | nil => exact ⟨List.append_nil d, (List.cons.inj ha).2.symm⟩
    | cons x a =>
        obtain ⟨rfl, -⟩ := List.cons.inj ha
        exact absurd ⟨a, by simp⟩ (hd.not_close_isPrefix hc)

end Text

namespace Kind

/-- The texts of a kind: balanced where the kind is that of comments, texts in which the engine
finds the tied expression where it is custom, and of admitted characters only. -/
def Describes [RegexEngine] : Kind → Text → Prop
  | comment, t => (∀ c ∈ t, comment.accepts c = true) ∧ t.Balanced
  | custom source, t =>
    ∃ r, RegexEngine.compileTied source = some r ∧ RegexEngine.isMatch r t = true
  | k, t => ∀ c ∈ t, k.accepts c = true

end Kind

namespace Slot

/-- The texts that a variable may capture. -/
def Captures [RegexEngine] (s : Slot) (span : Text) : Prop :=
  if span = [] then s.var.required = false else s.var.kind.Describes span

end Slot

/-! ## Listing the spans of a kind -/

namespace Candidate

/-- The candidate takes a non-empty span with a property from the beginning of the input, and
`taken` characters are counted before the input. -/
def Spans (c : Candidate) (taken : Nat) (input : Text) (P : Text → Prop) : Prop :=
  ∃ span, span ≠ [] ∧ input = span ++ c.rest ∧ c.taken = taken + span.length ∧ P span

variable {c : Candidate} {taken : Nat} {P : Text → Prop}

theorem not_spans_nil : ¬ c.Spans taken [] P := by
  rintro ⟨span, hne, ht, -⟩
  exact hne (List.append_eq_nil_iff.mp ht.symm).1

/-- A span of a longer input takes its first character, and that alone or more. -/
theorem spans_cons_iff {d : Char} {t : Text} :
    c.Spans taken (d :: t) P ↔
      (c = ⟨taken + 1, t⟩ ∧ P [d]) ∨ c.Spans (taken + 1) t (fun span => P (d :: span)) := by
  constructor
  · rintro ⟨span, hne, ht, hl, hP⟩
    cases span with
    | nil => exact absurd rfl hne
    | cons e span =>
        obtain ⟨rfl, rfl⟩ := List.cons.inj ht
        rw [List.length_cons] at hl
        by_cases hs : span = []
        · subst hs
          exact Or.inl ⟨by cases c; simp_all, hP⟩
        · exact Or.inr ⟨span, hs, rfl, by omega, hP⟩
  · rintro (⟨rfl, hP⟩ | ⟨span, hne, rfl, hl, hP⟩)
    · exact ⟨[d], by simp, rfl, rfl, hP⟩
    · exact ⟨d :: span, by simp, rfl, by rw [List.length_cons]; omega, hP⟩

theorem not_spans_of_not {input : Text} (h : ∀ span, ¬ P span) : ¬ c.Spans taken input P := by
  rintro ⟨span, -, -, -, hP⟩
  exact h span hP

end Candidate

namespace Kind

variable {p : Char → Bool} {c : Candidate}

/-- The runs are the spans of admitted characters. -/
theorem mem_runs_iff {taken : Nat} {input : Text} :
    c ∈ runs p taken input ↔ c.Spans taken input (fun span => ∀ x ∈ span, p x = true) := by
  induction input generalizing taken with
  | nil => simp [runs, Candidate.not_spans_nil]
  | cons d t ih =>
      rw [Candidate.spans_cons_iff]
      by_cases hd : p d = true
      · rw [runs, if_pos hd, List.mem_cons, ih]
        simp [hd]
      · rw [runs, if_neg hd]
        simp [hd, Candidate.not_spans_of_not]

/-- The balanced runs are the spans of admitted characters that close what is open. -/
theorem mem_balancedRuns_iff {depth taken : Nat} {input : Text} :
    c ∈ balancedRuns p depth taken input ↔
      c.Spans taken input (fun span => (∀ x ∈ span, p x = true) ∧ Text.Closes depth span) := by
  induction input generalizing depth taken with
  | nil => simp [balancedRuns, Candidate.not_spans_nil]
  | cons d t ih =>
      rw [Candidate.spans_cons_iff, balancedRuns.eq_def]
      by_cases hd : p d = true
      · simp only [hd, Bool.not_true, Bool.false_eq_true, if_false, List.forall_mem_cons, true_and,
          List.not_mem_nil, false_implies, implies_true]
        by_cases ho : d = '('
        · -- one more is open from here on
          subst ho
          simp [ih, Text.closes_open_iff, Text.closes_nil_iff]
        by_cases hc : d = ')'
        · subst hc
          rw [if_neg (by decide), if_pos rfl]
          cases depth with
          | zero => simp [Text.not_closes_zero_close, Candidate.not_spans_of_not]
          | succ depth =>
              cases depth with
              | zero => simp [ih, Text.closes_close_iff, Text.closes_nil_iff]
              | succ depth => simp [ih, Text.closes_close_iff, Text.closes_nil_iff]
        · rw [if_neg ho, if_neg hc]
          by_cases hz : depth = 0
          · subst hz
            simp [ih, Text.closes_other_iff ho hc, Text.closes_nil_iff]
          · simp [ih, hz, Text.closes_other_iff ho hc, Text.closes_nil_iff]
      · simp [hd, Candidate.not_spans_of_not]

/-- **The listed spans are those of the kind.** -/
theorem mem_spans_iff [RegexEngine] {k : Kind} {input : Text} :
    c ∈ k.spans input ↔ c.Spans 0 input k.Describes := by
  cases k with
  | comment => exact mem_balancedRuns_iff
  | custom source =>
      unfold spans
      rw [List.mem_filter, mem_runs_iff, Option.any_eq_true]
      constructor
      · rintro ⟨⟨span, hne, ht, hl, -⟩, hfound⟩
        rw [ht, hl, Nat.zero_add, List.take_left] at hfound
        exact ⟨span, hne, ht, hl, hfound⟩
      · rintro ⟨span, hne, ht, hl, hfound⟩
        refine ⟨⟨span, hne, ht, hl, fun _ _ => rfl⟩, ?_⟩
        rw [ht, hl, Nat.zero_add, List.take_left]
        exact hfound
  | all => exact mem_runs_iff
  | alpha => exact mem_runs_iff
  | alphaDigit => exact mem_runs_iff
  | commentAttribute => exact mem_runs_iff
  | digit => exact mem_runs_iff
  | token => exact mem_runs_iff
  | uriSegment => exact mem_runs_iff

end Kind

namespace Slot

variable [RegexEngine]

/-- **The candidate spans of a variable are exactly the captures that the input begins with.** -/
theorem mem_spans_iff {s : Slot} {input : Text} {c : Candidate} :
    c ∈ s.spans input ↔
      ∃ span, input = span ++ c.rest ∧ c.taken = span.length ∧ s.Captures span := by
  have hkind : c ∈ s.var.kind.spans input ↔
      ∃ span, span ≠ [] ∧ input = span ++ c.rest ∧ c.taken = span.length ∧ s.Captures span := by
    rw [Kind.mem_spans_iff]
    unfold Candidate.Spans
    refine exists_congr fun span => and_congr_right ?_
    intro hne
    rw [Nat.zero_add, Captures, if_neg hne]
  cases hr : s.var.required with
  | true =>
      unfold spans
      rw [hr, if_pos rfl, hkind]
      refine exists_congr fun span => and_iff_right_of_imp ?_
      rintro ⟨-, -, hc⟩ rfl
      simp [Captures, hr] at hc
  | false =>
      unfold spans
      rw [hr, if_neg Bool.false_ne_true, List.mem_cons, hkind]
      constructor
      · rintro (rfl | ⟨span, -, h⟩)
        · exact ⟨[], rfl, rfl, by rw [Captures, if_pos rfl, hr]⟩
        · exact ⟨span, h⟩
      · rintro ⟨span, ht, hl, hc⟩
        by_cases hs : span = []
        · subst hs
          left
          cases c
          simp_all
        · exact Or.inr ⟨span, hs, ht, hl, hc⟩

end Slot

/-! ## Their order -/

namespace Candidate

theorem Spans.taken_lt {c : Candidate} {taken : Nat} {input : Text} {P : Text → Prop}
    (h : c.Spans taken input P) : taken < c.taken := by
  obtain ⟨span, hne, -, hl, -⟩ := h
  have := List.length_pos_iff.mpr hne
  omega

/-- The first of two candidates takes less. -/
def Shorter (a b : Candidate) : Prop := a.taken < b.taken

end Candidate

namespace Kind

variable {p : Char → Bool}

theorem runs_pairwise (taken : Nat) (input : Text) :
    (runs p taken input).Pairwise Candidate.Shorter := by
  induction input generalizing taken with
  | nil => exact List.Pairwise.nil
  | cons d t ih =>
      unfold runs
      split
      · exact List.pairwise_cons.mpr ⟨fun c hc => (mem_runs_iff.mp hc).taken_lt, ih _⟩
      · exact List.Pairwise.nil

theorem balancedRuns_pairwise (depth taken : Nat) (input : Text) :
    (balancedRuns p depth taken input).Pairwise Candidate.Shorter := by
  have hcons : ∀ {t : Text} {n : Nat}, (balancedRuns p 0 n t).Pairwise Candidate.Shorter →
      (⟨n, t⟩ :: balancedRuns p 0 n t).Pairwise Candidate.Shorter := fun h =>
    List.pairwise_cons.mpr ⟨fun c hc => (mem_balancedRuns_iff.mp hc).taken_lt, h⟩
  fun_induction balancedRuns p depth taken input with
  | case1 => exact List.Pairwise.nil
  | case2 => exact List.Pairwise.nil
  | case3 _ _ _ _ ih => exact ih
  | case4 => exact List.Pairwise.nil
  | case5 _ _ _ _ ih => exact hcons ih
  | case6 _ _ _ _ _ _ ih => exact ih
  | case7 _ _ _ _ _ _ ih => exact hcons ih
  | case8 _ _ _ _ _ _ _ _ ih => exact ih

theorem spans_pairwise [RegexEngine] (k : Kind) (input : Text) :
    (k.spans input).Pairwise Candidate.Shorter := by
  cases k with
  | comment => exact balancedRuns_pairwise ..
  | custom source => exact (runs_pairwise ..).filter _
  | all => exact runs_pairwise ..
  | alpha => exact runs_pairwise ..
  | alphaDigit => exact runs_pairwise ..
  | commentAttribute => exact runs_pairwise ..
  | digit => exact runs_pairwise ..
  | token => exact runs_pairwise ..
  | uriSegment => exact runs_pairwise ..

end Kind

/-- The spans of a variable are listed by increasing length. -/
theorem Slot.spans_pairwise [RegexEngine] (s : Slot) (input : Text) :
    (s.spans input).Pairwise Candidate.Shorter := by
  unfold Slot.spans
  split
  · exact Kind.spans_pairwise ..
  · exact List.pairwise_cons.mpr
      ⟨fun c hc => (Kind.mem_spans_iff.mp hc).taken_lt, Kind.spans_pairwise ..⟩

end ContentNegotiation
