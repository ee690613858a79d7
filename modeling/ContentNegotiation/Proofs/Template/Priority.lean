import ContentNegotiation.Proofs.Template.Match
import ContentNegotiation.Regex.Parser

/-!
# Which split a match uses

Of two splits of an input the one goes first whose piece goes first at the first node where they
differ.

* `Slot.TakesLongest` — the rule that decides whether a variable prefers long spans.
* `Piece.Before` — a literal that is found goes before one that is left out, and the captures of a
  variable go by length.
* `Precedes` — the order of whole splits.

Principal results: `splits_pairwise` (the search comes upon the splits in this order) and
`Template.firstMatch_takes_first_split` (a match uses the first of all splits).
-/

namespace ContentNegotiation

/-- A list of nodes begins with a variable without restriction. -/
def StartsUnconstrained (nodes : List Node) : Prop :=
  ∃ s rest, nodes = .slot s :: rest ∧ s.var.kind = .all

namespace Slot

/-- The variable prefers long spans: it is the last node, or else no unconstrained variable follows
and it is unconstrained or facultative itself. -/
def TakesLongest (s : Slot) (after : List Node) : Prop :=
  after = [] ∨
    (¬ StartsUnconstrained after ∧ (s.var.kind = .all ∨ s.var.required = false))

end Slot

/-- Of two pieces of a node, which has the given nodes after it, the first one is tried first. -/
inductive Piece.Before (after : List Node) : Piece → Piece → Prop where
  | found {text : Text} : Before after (.literal text) .skipped
  | shorter {s : Slot} {a b : Text} : ¬ s.TakesLongest after → a.length < b.length →
      Before after (.captured s a) (.captured s b)
  | longer {s : Slot} {a b : Text} : s.TakesLongest after → b.length < a.length →
      Before after (.captured s a) (.captured s b)

/-- At the first node where the splits differ, the first one goes first. -/
def Precedes (nodes : List Node) (ps qs : List Piece) : Prop :=
  ∃ i p q, ps.take i = qs.take i ∧ ps[i]? = some p ∧ qs[i]? = some q ∧
    p.Before (nodes.drop (i + 1)) q

namespace Piece

theorem not_before_self {after : List Node} {p : Piece} : ¬ p.Before after p := by
  intro h
  cases h with
  | shorter _ hl => exact Nat.lt_irrefl _ hl
  | longer _ hl => exact Nat.lt_irrefl _ hl

end Piece

namespace Precedes

theorem head {after : List Node} {n : Node} {p q : Piece} (h : p.Before after q)
    (ps qs : List Piece) : Precedes (n :: after) (p :: ps) (q :: qs) :=
  ⟨0, p, q, rfl, rfl, rfl, h⟩

theorem cons {nodes : List Node} {ps qs : List Piece} (h : Precedes nodes ps qs) (n : Node)
    (p : Piece) : Precedes (n :: nodes) (p :: ps) (p :: qs) := by
  obtain ⟨i, x, y, ht, hx, hy, hb⟩ := h
  refine ⟨i + 1, x, y, ?_, ?_, ?_, hb⟩
  · rw [List.take_succ_cons, List.take_succ_cons, ht]
  · rw [List.getElem?_cons_succ, hx]
  · rw [List.getElem?_cons_succ, hy]

end Precedes

/-! ## The order of the candidates -/

namespace Kind

theorem isUnconstrained_iff {k : Kind} : k.isUnconstrained = true ↔ k = .all := by
  cases k <;> simp [isUnconstrained]

end Kind

namespace Slot

theorem startsUnconstrained_slot_iff {s : Slot} {rest : List Node} :
    StartsUnconstrained (.slot s :: rest) ↔ s.var.kind = .all := by
  constructor
  · rintro ⟨_, _, heq, hk⟩
    obtain ⟨⟨rfl⟩, rfl⟩ := List.cons.inj heq
    exact hk
  · intro hk
    exact ⟨s, rest, rfl, hk⟩

theorem not_startsUnconstrained_literal {text : Text} {rest : List Node} :
    ¬ StartsUnconstrained (.literal text :: rest) := by
  rintro ⟨_, _, heq, -⟩
  cases heq

/-- The order that is chosen for a variable is the one that the rule says. -/
theorem of_eq_longest_iff {s : Slot} {after : List Node} :
    SpanOrder.of s.var after = .longest ↔ s.TakesLongest after := by
  cases after with
  | nil => simp [SpanOrder.of, TakesLongest]
  | cons n rest =>
      cases n with
      | literal text =>
          simp [SpanOrder.of, TakesLongest, not_startsUnconstrained_literal,
            Kind.isUnconstrained_iff, Decidable.imp_iff_not_or]
      | slot next =>
          rw [SpanOrder.of, TakesLongest, startsUnconstrained_slot_iff,
            ← Kind.isUnconstrained_iff]
          by_cases hn : next.var.kind.isUnconstrained = true
          · simp [hn]
          · simp [hn, Kind.isUnconstrained_iff, Decidable.imp_iff_not_or]

/-- The captures that two candidates stand for are tried in the order of the candidates. -/
theorem candidates_pairwise [RegexEngine] (s : Slot) (after : List Node) (input : Text) :
    (s.candidates after input).Pairwise fun c d =>
      (Piece.captured s (input.take c.taken)).Before after (.captured s (input.take d.taken)) := by
  have hlength : ∀ c ∈ s.spans input, (input.take c.taken).length = c.taken := by
    intro c hc
    obtain ⟨span, ht, hl, -⟩ := mem_spans_iff.mp hc
    rw [ht, hl, List.take_left]
  unfold candidates
  cases ho : SpanOrder.of s.var after with
  | shortest =>
      have hshort : ¬ s.TakesLongest after := by
        rw [← of_eq_longest_iff, ho]
        exact SpanOrder.noConfusion
      refine (s.spans_pairwise input).imp_of_mem fun hc hd hcd => ?_
      refine .shorter hshort ?_
      rw [hlength _ hc, hlength _ hd]
      exact hcd
  | longest =>
      have hlong : s.TakesLongest after := of_eq_longest_iff.mp ho
      refine List.pairwise_reverse.mpr ((s.spans_pairwise input).imp_of_mem fun hc hd hcd => ?_)
      refine .longer hlong ?_
      rw [hlength _ hc, hlength _ hd]
      exact hcd

end Slot

/-! ## The order of the splits -/

/-- **The search comes upon the splits in order.** -/
theorem splits_pairwise [RegexEngine] {extent : Extent} : ∀ (nodes : List Node) (input : Text),
    (splits extent nodes input).Pairwise (Precedes nodes)
  | [], input => by
    rw [splits]
    cases Search.finish extent input with
    | none => exact List.Pairwise.nil
    | some ps => exact List.pairwise_singleton ..
  | .literal text :: after, input => by
    rw [splits.eq_def, List.pairwise_append]
    refine ⟨?_, ?_, ?_⟩
    · cases Text.dropPrefix text input with
      | none => exact List.Pairwise.nil
      | some rest => exact List.pairwise_map.mpr ((splits_pairwise after rest).imp (·.cons _ _))
    · rcases after with _ | ⟨_ | v, beyond⟩
      · exact List.Pairwise.nil
      · exact List.Pairwise.nil
      · simp only
        split
        · refine List.pairwise_map.mpr ((splits_pairwise beyond input).imp fun h => ?_)
          exact (h.cons _ _).cons _ _
        · exact List.Pairwise.nil
    · -- every split with the literal goes before every split without it
      intro ps hps qs hqs
      obtain ⟨ps', rfl⟩ : ∃ ps', ps = .literal text :: ps' := by
        split at hps
        · obtain ⟨ps', -, rfl⟩ := List.mem_map.mp hps
          exact ⟨ps', rfl⟩
        · cases hps
      obtain ⟨qs', rfl⟩ : ∃ qs', qs = .skipped :: qs' := by
        split at hqs
        · split at hqs
          · obtain ⟨qs', -, rfl⟩ := List.mem_map.mp hqs
            exact ⟨_, rfl⟩
          · cases hqs
        · cases hqs
      exact .head .found ..
  | .slot s :: after, input => by
    rw [splits, List.pairwise_flatMap]
    refine ⟨fun c _ => ?_, (s.candidates_pairwise after input).imp fun hcd ps hps qs hqs => ?_⟩
    · exact List.pairwise_map.mpr ((splits_pairwise after c.rest).imp (·.cons _ _))
    · obtain ⟨ps, -, rfl⟩ := List.mem_map.mp hps
      obtain ⟨qs, -, rfl⟩ := List.mem_map.mp hqs
      exact .head hcd ..
termination_by nodes => nodes.length

/-- The first of a list in order goes before every other member. -/
theorem rel_of_head? {α : Type} {R : α → α → Prop} {l : List α} {a b : α} (hl : l.Pairwise R)
    (ha : l.head? = some a) (hb : b ∈ l) (hne : b ≠ a) : R a b := by
  cases l with
  | nil => cases ha
  | cons x l =>
      obtain rfl : x = a := Option.some.inj ha
      rcases List.mem_cons.mp hb with rfl | hb
      · exact absurd rfl hne
      · exact (List.pairwise_cons.mp hl).1 b hb

/-- Splits that agree up to two different pieces are ordered by those pieces. -/
theorem Precedes.before {nodes : List Node} {first ps qs : List Piece} {p q : Piece}
    (h : Precedes nodes (first ++ p :: ps) (first ++ q :: qs)) (hne : p ≠ q) :
    p.Before (nodes.drop (first.length + 1)) q := by
  obtain ⟨i, x, y, ht, hx, hy, hb⟩ := h
  rcases Nat.lt_trichotomy i first.length with hi | rfl | hi
  · -- the pieces before are the same
    rw [List.getElem?_append_left hi] at hx hy
    obtain rfl : x = y := Option.some.inj (hx.symm.trans hy)
    exact absurd hb Piece.not_before_self
  · rw [List.getElem?_append_right (Nat.le_refl _), Nat.sub_self, List.getElem?_cons_zero] at hx hy
    obtain rfl := Option.some.inj hx
    obtain rfl := Option.some.inj hy
    exact hb
  · -- the splits differ at these pieces already
    have h := congrArg (·[first.length]?) ht
    simp [hi] at h
    exact absurd h hne

/-- Where an unconstrained variable follows, the shorter of two spans after the same pieces goes
first. -/
theorem Precedes.length_lt {nodes after : List Node} {s : Slot} {first ps qs : List Piece}
    {a b : Text} (hfirst : nodes.drop (first.length + 1) = after) (hs : ¬ s.TakesLongest after)
    (h : Precedes nodes (first ++ .captured s a :: ps) (first ++ .captured s b :: qs))
    (hne : a ≠ b) : a.length < b.length := by
  have hb := h.before (by simp [hne])
  rw [hfirst] at hb
  cases hb with
  | shorter _ hl => exact hl
  | longer hlong _ => exact absurd hlong hs

/-- **A match uses the first of all splits.**  In particular, of two unconstrained variables side
by side the left one takes the shortest span with which the rest can still be matched. -/
theorem Template.firstMatch_takes_first_split [RegexEngine] {t : Template} {input : Text}
    {m : TemplateMatch} (h : t.firstMatch input = some m) :
    ∃ ps, (t.search input).1 = some ps ∧ m = .ofPieces ps ∧ t.IsSplit input ps ∧
      (∀ qs, t.IsSplit input qs → qs ≠ ps → Precedes t.nodes ps qs) ∧
      ∀ (first : List Piece) (a b : Slot) (after : List Node) (span : Text) (rest : List Piece),
        t.nodes.drop first.length = .slot a :: .slot b :: after →
        a.var.kind = .all → b.var.kind = .all → ps = first ++ .captured a span :: rest →
        ∀ other others, t.IsSplit input (first ++ .captured a other :: others) →
          span.length ≤ other.length := by
  obtain ⟨ps, hps, rfl⟩ := firstMatch_eq_some_iff.mp h
  have hfirst : ∀ qs, t.IsSplit input qs → qs ≠ ps → Precedes t.nodes ps qs := fun qs hqs hne =>
    rel_of_head? (splits_pairwise ..) hps (mem_splits_iff_isSplit.mpr hqs) hne
  refine ⟨ps, by rw [search_eq_head?, hps], rfl, isSplit_of_head? hps, hfirst, ?_⟩
  rintro first a b after span rest hnodes - hb rfl other others hother
  by_cases hspan : span = other
  · exact Nat.le_of_eq (congrArg List.length hspan)
  · have hprec := hfirst _ hother (by simp [Ne.symm hspan])
    have hafter : t.nodes.drop (first.length + 1) = .slot b :: after := by
      rw [← List.drop_drop, hnodes]
      rfl
    refine Nat.le_of_lt (hprec.length_lt hafter ?_ hspan)
    rintro (hnil | ⟨hstart, -⟩)
    · cases hnil
    · exact hstart (Slot.startsUnconstrained_slot_iff.mpr hb)

attribute [local instance] Regex.engine

/-- The template of two unconstrained variables side by side. -/
def Template.sideBySide : Template :=
  ⟨"\x7bhead\x7d\x7btail\x7d".toList,
    [.slot ⟨"head".toList, .mandatory .all⟩, .slot ⟨"tail".toList, .mandatory .all⟩], .whole⟩

theorem Template.sideBySide_takes_first_split :
    ∃ m ps, sideBySide.firstMatch ['x', 'y', 'z'] = some m ∧
      (sideBySide.search ['x', 'y', 'z']).1 = some ps ∧ m = .ofPieces ps ∧
      m.value "head".toList = some ['x'] ∧ m.value "tail".toList = some ['y', 'z'] ∧
      ∀ qs, sideBySide.IsSplit ['x', 'y', 'z'] qs → qs ≠ ps → Precedes sideBySide.nodes ps qs := by
  have h : sideBySide.firstMatch ['x', 'y', 'z'] =
      some ⟨[("tail".toList, ['y', 'z']), ("head".toList, ['x'])], ['x', 'y', 'z']⟩ := by
    rw [firstMatch_eq]
    decide
  obtain ⟨ps, hps, hm, -, hfirst, -⟩ := firstMatch_takes_first_split h
  exact ⟨_, ps, h, hps, hm, by decide, by decide, hfirst⟩

end ContentNegotiation
