import ContentNegotiation.Proofs.Template.Split
import ContentNegotiation.Regex.Parser

/-!
# Where candidate spans end

Seen from outside, the candidate spans of a variable are the places where they end, in bytes of the
input.  A longer span of the same text has more bytes, so places stand for spans and come in the
order of the spans.

* `Text.byteSize_lt_of_prefix` — a text has more bytes than what it begins with.
* `Slot.ends` — the places where the candidate spans end, in the order in which they are tried.
* `Slot.mem_ends_iff` — they are the places up to which the variable may capture the input.
* `Slot.ends_of_shortest`, `Slot.ends_of_longest` — they ascend or descend, by the order of the
  variable.

Principal result: `Slot.ends_exact`.
-/

namespace ContentNegotiation

namespace Text

variable {p q t : Text}

theorem byteSize_pos (h : t ≠ []) : 0 < byteSize t := by
  cases t with
  | nil => exact absurd rfl h
  | cons c t =>
      have := c.utf8Size_pos
      rw [byteSize_cons]
      omega

theorem byteSize_lt_of_prefix (h : p <+: q) (hne : p ≠ q) : byteSize p < byteSize q := by
  obtain ⟨r, rfl⟩ := h
  have hr : r ≠ [] := by
    rintro rfl
    exact hne (List.append_nil p).symm
  have := byteSize_pos hr
  rw [byteSize_append]
  omega

/-- Two beginnings of a text that have the same number of bytes are the same. -/
theorem eq_of_byteSize_eq (hp : p <+: t) (hq : q <+: t) (h : byteSize p = byteSize q) : p = q := by
  by_contra hne
  rcases List.prefix_or_prefix_of_prefix hp hq with hpq | hqp
  · have := byteSize_lt_of_prefix hpq hne
    omega
  · have := byteSize_lt_of_prefix hqp (Ne.symm hne)
    omega

end Text

namespace Slot

section Ends

variable [RegexEngine] {s : Slot} {after : List Node} {before rest span : Text} {stop : Nat}

/-- Where the candidate spans of a variable end, in bytes from the beginning of the input and in the
order in which they are tried.  The variable stands behind one part of the input and captures from
the rest. -/
def ends (s : Slot) (after : List Node) (before rest : Text) : List Nat :=
  (s.candidates after rest).map fun c => Text.byteSize (before ++ rest.take c.taken)

/-! ## The spans that end there -/

/-- What a candidate takes is captured, and the rest is left. -/
theorem captures_of_mem_candidates {c : Candidate} (h : c ∈ s.candidates after rest) :
    rest = rest.take c.taken ++ c.rest ∧ s.Captures (rest.take c.taken) := by
  obtain ⟨span, hrest, htaken, hcaptures⟩ := mem_spans_iff.mp (mem_candidates_iff.mp h)
  have htake : rest.take c.taken = span := by
    rw [hrest, htaken, List.take_left]
  rw [htake]
  exact ⟨hrest, hcaptures⟩

theorem exists_of_mem_ends (h : stop ∈ s.ends after before rest) :
    ∃ span, span <+: rest ∧ stop = Text.byteSize (before ++ span) ∧ s.Captures span := by
  obtain ⟨c, hc, rfl⟩ := List.mem_map.mp h
  exact ⟨_, List.take_prefix .., rfl, (captures_of_mem_candidates hc).2⟩

/-- **A candidate span ends exactly where the variable may capture the input up to there.** -/
theorem mem_ends_iff (hspan : span <+: rest) :
    Text.byteSize (before ++ span) ∈ s.ends after before rest ↔ s.Captures span := by
  constructor
  · intro h
    obtain ⟨other, hother, hsize, hcaptures⟩ := exists_of_mem_ends h
    rw [Text.byteSize_append, Text.byteSize_append, Nat.add_left_cancel_iff] at hsize
    rwa [Text.eq_of_byteSize_eq hspan hother hsize]
  · intro hcaptures
    obtain ⟨left, rfl⟩ := hspan
    have hcandidate : ⟨span.length, left⟩ ∈ s.candidates after (span ++ left) :=
      mem_candidates_iff.mpr (mem_spans_iff.mpr ⟨span, rfl, rfl, hcaptures⟩)
    refine List.mem_map.mpr ⟨_, hcandidate, ?_⟩
    rw [List.take_left]

/-! ## Their order -/

/-- The spans of a variable end at ascending places. -/
theorem spans_ends_pairwise (s : Slot) (before rest : Text) :
    ((s.spans rest).map fun c => Text.byteSize (before ++ rest.take c.taken)).Pairwise (· < ·) := by
  refine List.pairwise_map.mpr ((s.spans_pairwise rest).imp_of_mem ?_)
  intro c d _ hd hshorter
  have hle : d.taken ≤ rest.length := by
    obtain ⟨span, rfl, htaken, -⟩ := mem_spans_iff.mp hd
    simp [htaken]
  unfold Candidate.Shorter at hshorter
  have hne : rest.take c.taken ≠ rest.take d.taken := by
    intro heq
    have := congrArg List.length heq
    rw [List.length_take, List.length_take] at this
    omega
  have hlt := Text.byteSize_lt_of_prefix (List.take_prefix_take_left (Nat.le_of_lt hshorter)) hne
  rw [Text.byteSize_append, Text.byteSize_append]
  omega

theorem ends_of_shortest (h : SpanOrder.of s.var after = .shortest) :
    (s.ends after before rest).Pairwise (· < ·) := by
  unfold ends candidates
  rw [h]
  exact s.spans_ends_pairwise before rest

theorem ends_of_longest (h : SpanOrder.of s.var after = .longest) :
    (s.ends after before rest).Pairwise (· > ·) := by
  unfold ends candidates
  rw [h, SpanOrder.arrange, List.map_reverse, List.pairwise_reverse]
  exact s.spans_ends_pairwise before rest

theorem ends_nodup (s : Slot) (after : List Node) (before rest : Text) :
    (s.ends after before rest).Nodup := by
  cases h : SpanOrder.of s.var after with
  | shortest => exact (ends_of_shortest h).imp Nat.ne_of_lt
  | longest => exact (ends_of_longest h).imp Nat.ne_of_gt

/-- **The candidate spans of a variable are exactly those of its grammar.**  Wherever the variable
stands in the input, a candidate ends behind a span with which the rest of the input begins, and
leaves what follows.  The empty span is among the candidates if and only if the variable is
facultative, and any other span if and only if it is a text of the kind.  No place occurs twice:
the places ascend if short spans are tried first, and descend if long ones are. -/
theorem ends_exact (s : Slot) (after : List Node) (before rest : Text) :
    (∀ c ∈ s.candidates after rest, rest = rest.take c.taken ++ c.rest) ∧
    (∀ stop ∈ s.ends after before rest,
      ∃ span, span <+: rest ∧ stop = Text.byteSize (before ++ span)) ∧
    (Text.byteSize before ∈ s.ends after before rest ↔ s.var.required = false) ∧
    (∀ span, span ≠ [] → span <+: rest →
      (Text.byteSize (before ++ span) ∈ s.ends after before rest ↔ s.var.kind.Describes span)) ∧
    (s.ends after before rest).Nodup ∧
    (SpanOrder.of s.var after = .shortest → (s.ends after before rest).Pairwise (· < ·)) ∧
    (SpanOrder.of s.var after = .longest → (s.ends after before rest).Pairwise (· > ·)) := by
  refine ⟨fun c hc => (captures_of_mem_candidates hc).1, fun stop hstop => ?_, ?_,
    fun span hne hspan => ?_, s.ends_nodup after before rest, ends_of_shortest, ends_of_longest⟩
  · obtain ⟨span, hspan, hstop, -⟩ := exists_of_mem_ends hstop
    exact ⟨span, hspan, hstop⟩
  · have hempty : Text.byteSize (before ++ []) ∈ s.ends after before rest ↔ s.Captures [] :=
      mem_ends_iff List.nil_prefix
    rwa [List.append_nil, Captures, if_pos rfl] at hempty
  · rw [mem_ends_iff hspan, Captures, if_neg hne]

end Ends

attribute [local instance] Regex.engine

/-- A comment that may be left out. -/
def remark : Slot := ⟨"remark".toList, .facultative .comment⟩

/-- Behind a letter of two bytes the remark may be empty, or end where nothing is open: behind its
parenthesis or the blank after it. -/
theorem remark_ends_exact :
    remark.ends [] ['é'] "(ü) (".toList = [7, 6, 2] ∧
      "(ü) ".toList <+: "(ü) (".toList ∧
      Text.byteSize ("é(ü) ".toList) = 7 ∧
      7 ∈ remark.ends [] ['é'] "(ü) (".toList ∧
      Text.byteSize ("é(ü) (".toList) ∉ remark.ends [] ['é'] "(ü) (".toList ∧
      SpanOrder.of remark.var [] = .longest ∧
      (remark.ends [] ['é'] "(ü) (".toList).Pairwise (· > ·) := by
  obtain ⟨-, -, -, hspan, -, -, hlongest⟩ := remark.ends_exact [] ['é'] "(ü) (".toList
  have hprefix : "(ü) ".toList <+: "(ü) (".toList := by decide
  have hbalanced : remark.var.kind.Describes "(ü) ".toList :=
    ⟨List.all_eq_true.mp (by decide), by decide⟩
  have hopen : ¬ remark.var.kind.Describes "(ü) (".toList :=
    fun h => absurd h.2 (by decide)
  exact ⟨by decide, hprefix, by decide, (hspan _ (by decide) hprefix).mpr hbalanced,
    mt (hspan _ (by decide) (List.prefix_refl _)).mp hopen, rfl, hlongest rfl⟩

end Slot

end ContentNegotiation
