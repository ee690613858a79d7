import ContentNegotiation.Proofs.Template.Grammar
import ContentNegotiation.Proofs.Text.Cutting
import ContentNegotiation.Template.Match

/-!
# Splits of an input

What it means that a template describes an input, said without reference to the search: the
beginning of the input is cut into one piece for each node.

* `Fits` — the pieces fit the nodes one by one.  The only freedom beside the captures is that a
  blank literal before a facultative variable is left out together with that variable.
* `Template.IsSplit` — the pieces fit, and they cover as much of the input as the template has to.
* `splits` — all splits as a list, in the order in which a search without memory comes upon them.

Principal result: `mem_splits_iff` (the list holds exactly the splits).
-/

namespace ContentNegotiation

/-- Pieces that fit the nodes of a template, one for each node. -/
inductive Fits [RegexEngine] : List Node → List Piece → Prop where
  | nil : Fits [] []
  /-- The literal is found in the input. -/
  | literal {text : Text} {after : List Node} {ps : List Piece} :
      Fits after ps → Fits (.literal text :: after) (.literal text :: ps)
  /-- The variable captures a span. -/
  | captured {s : Slot} {span : Text} {after : List Node} {ps : List Piece} :
      s.Captures span → Fits after ps → Fits (.slot s :: after) (.captured s span :: ps)
  /-- A blank literal is left out, and the facultative variable after it captures nothing. -/
  | skipped {text : Text} {s : Slot} {after : List Node} {ps : List Piece} :
      (∀ c ∈ text, isBlank c = true) → s.var.required = false → Fits after ps →
        Fits (.literal text :: .slot s :: after) (.skipped :: .captured s [] :: ps)

namespace Fits

variable [RegexEngine]

theorem nil_iff {ps : List Piece} : Fits [] ps ↔ ps = [] := by
  constructor
  · intro h
    cases h
    rfl
  · rintro rfl
    exact .nil

theorem slot_iff {s : Slot} {after : List Node} {ps : List Piece} :
    Fits (.slot s :: after) ps ↔
      ∃ span qs, ps = .captured s span :: qs ∧ s.Captures span ∧ Fits after qs := by
  constructor
  · intro h
    cases h with
    | captured hc hf => exact ⟨_, _, rfl, hc, hf⟩
  · rintro ⟨span, qs, rfl, hc, hf⟩
    exact .captured hc hf

theorem literal_iff {text : Text} {after : List Node} {ps : List Piece} :
    Fits (.literal text :: after) ps ↔
      (∃ qs, ps = .literal text :: qs ∧ Fits after qs) ∨
      ∃ s beyond qs, after = .slot s :: beyond ∧ ps = .skipped :: .captured s [] :: qs ∧
        (∀ c ∈ text, isBlank c = true) ∧ s.var.required = false ∧ Fits beyond qs := by
  constructor
  · intro h
    cases h with
    | literal hf => exact Or.inl ⟨_, rfl, hf⟩
    | skipped hb hr hf => exact Or.inr ⟨_, _, _, rfl, rfl, hb, hr, hf⟩
  · rintro (⟨qs, rfl, hf⟩ | ⟨s, beyond, qs, rfl, rfl, hb, hr, hf⟩)
    · exact .literal hf
    · exact .skipped hb hr hf

/-- A literal that is not blank is never left out. -/
theorem literal_iff_of_not_blank {text : Text} {after : List Node} {ps : List Piece}
    (h : Text.allBlank text = false) :
    Fits (.literal text :: after) ps ↔ ∃ qs, ps = .literal text :: qs ∧ Fits after qs := by
  rw [literal_iff, or_iff_left]
  rintro ⟨s, beyond, qs, -, -, hb, -⟩
  rw [Text.allBlank_iff.mpr hb] at h
  cases h

theorem append {ns ms : List Node} {ps qs : List Piece} (hps : Fits ns ps) (hqs : Fits ms qs) :
    Fits (ns ++ ms) (ps ++ qs) := by
  induction hps with
  | nil => exact hqs
  | literal _ ih => exact .literal ih
  | captured hcap _ ih => exact .captured hcap ih
  | skipped hblank hfree _ ih => exact .skipped hblank hfree ih

end Fits

/-- What the pieces cover of an input. -/
def Piece.covered (ps : List Piece) : Text := (ps.map Piece.text).flatten

@[simp] theorem Piece.covered_nil : Piece.covered [] = [] := rfl

@[simp] theorem Piece.covered_cons (p : Piece) (ps : List Piece) :
    Piece.covered (p :: ps) = p.text ++ Piece.covered ps := rfl

@[simp] theorem Piece.covered_append (ps qs : List Piece) :
    Piece.covered (ps ++ qs) = Piece.covered ps ++ Piece.covered qs := by
  simp [Piece.covered]

/-- A literal at the end of a pattern ends what the pattern covers. -/
theorem Fits.literal_isSuffix [RegexEngine] {nodes : List Node} {ps : List Piece}
    (h : Fits nodes ps) {text : Text} (hlast : nodes.getLast? = some (.literal text)) :
    text <:+ Piece.covered ps := by
  have hcons : ∀ {n : Node} {l : List Node}, (n :: l).getLast? = some (.literal text) →
      n = .literal text ∧ l = [] ∨ l.getLast? = some (.literal text) := by
    intro n l hl
    cases l with
    | nil => exact Or.inl ⟨Option.some.inj hl, rfl⟩
    | cons m l => exact Or.inr (List.getLast?_cons_cons ▸ hl)
  induction h with
  | nil => cases hlast
  | literal hf ih =>
      rcases hcons hlast with ⟨heq, rfl⟩ | hlast
      · cases heq
        rw [Fits.nil_iff.mp hf]
        simp [Piece.text]
      · exact (ih hlast).trans (List.suffix_append ..)
  | captured _ _ ih =>
      rcases hcons hlast with ⟨heq, -⟩ | hlast
      · cases heq
      · exact (ih hlast).trans (List.suffix_append ..)
  | skipped _ _ _ ih =>
      rw [List.getLast?_cons_cons] at hlast
      rcases hcons hlast with ⟨heq, -⟩ | hlast
      · cases heq
      · exact (ih hlast).trans (List.suffix_append ..)

/-- A literal that is not blank is found wherever the pattern fits. -/
theorem Fits.literal_mem [RegexEngine] {nodes : List Node} {ps : List Piece} (h : Fits nodes ps)
    {text : Text} (hblank : Text.allBlank text = false) (hmem : .literal text ∈ nodes) :
    .literal text ∈ ps := by
  induction h with
  | nil => cases hmem
  | literal _ ih =>
      rcases List.mem_cons.mp hmem with heq | hmem
      · cases heq
        exact List.mem_cons_self
      · exact List.mem_cons_of_mem _ (ih hmem)
  | captured _ _ ih =>
      rcases List.mem_cons.mp hmem with heq | hmem
      · cases heq
      · exact List.mem_cons_of_mem _ (ih hmem)
  | skipped hblanks _ _ ih =>
      simp only [List.mem_cons, reduceCtorEq, false_or] at hmem
      rcases hmem with heq | hmem
      · cases heq
        rw [Text.allBlank_iff.mpr hblanks] at hblank
        cases hblank
      · exact List.mem_cons_of_mem _ (List.mem_cons_of_mem _ (ih hmem))

/-- A text covers enough of an input: all of it, or some beginning. -/
def Extent.Allows : Extent → Text → Text → Prop
  | whole, t, input => t = input
  | beginning, t, input => t <+: input

namespace Extent

theorem allows_self (extent : Extent) (t : Text) : extent.Allows t t := by
  cases extent with
  | whole => rfl
  | beginning => exact List.prefix_rfl

theorem Allows.isPrefix {extent : Extent} {t input : Text} (h : extent.Allows t input) :
    t <+: input := by
  cases extent with
  | whole =>
      obtain rfl : t = input := h
      exact List.prefix_rfl
  | beginning => exact h

theorem allows_append_iff {extent : Extent} {a t input : Text} :
    extent.Allows (a ++ t) input ↔ ∃ rest, input = a ++ rest ∧ extent.Allows t rest := by
  cases extent with
  | whole =>
      constructor
      · rintro rfl
        exact ⟨t, rfl, rfl⟩
      · rintro ⟨rest, rfl, rfl⟩
        rfl
  | beginning =>
      constructor
      · rintro ⟨rest, rfl⟩
        exact ⟨t ++ rest, List.append_assoc .., List.prefix_append ..⟩
      · rintro ⟨rest, rfl, h⟩
        exact (List.prefix_append_right_inj a).mpr h

theorem allows_nil_iff {extent : Extent} {input : Text} :
    extent.Allows [] input ↔ Search.finish extent input = some [] := by
  cases extent with
  | whole => cases input <;> simp [Allows, Search.finish]
  | beginning => simp [Allows, Search.finish]

end Extent

variable [RegexEngine]

/-- The pieces split the input: they fit the nodes and cover as much as the template has to. -/
structure Template.IsSplit (t : Template) (input : Text) (ps : List Piece) : Prop where
  fits : Fits t.nodes ps
  covers : t.extent.Allows (Piece.covered ps) input

/-! ## All splits as a list -/

/-- All splits of an input, in the order in which they are tried. -/
def splits (extent : Extent) : List Node → Text → List (List Piece)
  | [], input => (Search.finish extent input).toList
  | .literal text :: after, input =>
    (match Text.dropPrefix text input with
      | some rest => (splits extent after rest).map (.literal text :: ·)
      | none => []) ++
    match after with
      | .slot v :: beyond =>
        if Text.allBlank text && !v.var.required then
          (splits extent beyond input).map (.skipped :: .captured v [] :: ·)
        else []
      | _ => []
  | .slot v :: after, input =>
    (v.candidates after input).flatMap fun c =>
      (splits extent after c.rest).map fun ps => .captured v (input.take c.taken) :: ps

/-- The order of trying does not matter for what is tried. -/
theorem Slot.mem_candidates_iff {s : Slot} {after : List Node} {input : Text} {c : Candidate} :
    c ∈ s.candidates after input ↔ c ∈ s.spans input := by
  unfold Slot.candidates
  cases SpanOrder.of s.var after with
  | shortest => exact Iff.rfl
  | longest => exact List.mem_reverse

theorem mem_splits_literal_iff {extent : Extent} {text : Text} {after : List Node} {input : Text}
    {ps : List Piece} :
    ps ∈ splits extent (.literal text :: after) input ↔
      (∃ rest qs, input = text ++ rest ∧ qs ∈ splits extent after rest ∧
        ps = .literal text :: qs) ∨
      ∃ s beyond qs, after = .slot s :: beyond ∧ (∀ c ∈ text, isBlank c = true) ∧
        s.var.required = false ∧ qs ∈ splits extent beyond input ∧
        ps = .skipped :: .captured s [] :: qs := by
  rw [splits.eq_def, List.mem_append]
  refine or_congr ?_ ?_
  · split
    · rename_i rest hd
      rw [Text.dropPrefix_eq_some_iff] at hd
      subst hd
      simp [eq_comm]
    · rename_i hd
      refine iff_of_false List.not_mem_nil ?_
      rintro ⟨rest, qs, rfl, -⟩
      simp at hd
  · split
    · rename_i s beyond
      rw [← Text.allBlank_iff]
      split
      · rename_i hskip
        rw [Bool.and_eq_true, Bool.not_eq_true'] at hskip
        rw [List.mem_map]
        constructor
        · rintro ⟨qs, hqs, rfl⟩
          exact ⟨s, beyond, qs, rfl, hskip.1, hskip.2, hqs, rfl⟩
        · rintro ⟨_, _, qs, heq, -, -, hqs, rfl⟩
          obtain ⟨⟨rfl⟩, rfl⟩ := List.cons.inj heq
          exact ⟨qs, hqs, rfl⟩
      · rename_i hskip
        refine iff_of_false List.not_mem_nil ?_
        rintro ⟨_, _, qs, heq, hb, hr, -⟩
        obtain ⟨⟨rfl⟩, rfl⟩ := List.cons.inj heq
        exact hskip (by rw [hb, hr]; rfl)
    · rename_i hns
      refine iff_of_false List.not_mem_nil ?_
      rintro ⟨s, beyond, qs, rfl, -⟩
      exact hns s beyond rfl

theorem mem_splits_slot_iff {extent : Extent} {s : Slot} {after : List Node} {input : Text}
    {ps : List Piece} :
    ps ∈ splits extent (.slot s :: after) input ↔
      ∃ span rest qs, input = span ++ rest ∧ s.Captures span ∧ qs ∈ splits extent after rest ∧
        ps = .captured s span :: qs := by
  rw [splits, List.mem_flatMap]
  constructor
  · rintro ⟨c, hc, hps⟩
    obtain ⟨span, ht, hl, hcap⟩ := Slot.mem_spans_iff.mp (Slot.mem_candidates_iff.mp hc)
    obtain ⟨qs, hqs, rfl⟩ := List.mem_map.mp hps
    refine ⟨span, c.rest, qs, ht, hcap, hqs, ?_⟩
    rw [ht, hl, List.take_left]
  · rintro ⟨span, rest, qs, rfl, hcap, hqs, rfl⟩
    refine ⟨⟨span.length, rest⟩, ?_, List.mem_map.mpr ⟨qs, hqs, ?_⟩⟩
    · exact Slot.mem_candidates_iff.mpr (Slot.mem_spans_iff.mpr ⟨span, rfl, rfl, hcap⟩)
    · rw [List.take_left]

/-- **The listed splits are exactly the splits.** -/
theorem mem_splits_iff {extent : Extent} : ∀ {nodes : List Node} {input : Text} {ps : List Piece},
    ps ∈ splits extent nodes input ↔ Fits nodes ps ∧ extent.Allows (Piece.covered ps) input
  | [], input, ps => by
    rw [splits, Option.mem_toList, Fits.nil_iff]
    constructor
    · intro h
      cases extent <;> cases input <;> simp_all [Search.finish, Extent.Allows]
    · rintro ⟨rfl, h⟩
      exact Extent.allows_nil_iff.mp h
  | .literal text :: after, input, ps => by
    rw [mem_splits_literal_iff, Fits.literal_iff, or_and_right]
    refine or_congr ?_ ?_
    · constructor
      · rintro ⟨rest, qs, rfl, hqs, rfl⟩
        obtain ⟨hf, ha⟩ := mem_splits_iff.mp hqs
        exact ⟨⟨qs, rfl, hf⟩, Extent.allows_append_iff.mpr ⟨rest, rfl, ha⟩⟩
      · rintro ⟨⟨qs, rfl, hf⟩, ha⟩
        obtain ⟨rest, rfl, hrest⟩ := Extent.allows_append_iff.mp ha
        exact ⟨rest, qs, rfl, mem_splits_iff.mpr ⟨hf, hrest⟩, rfl⟩
    · constructor
      · rintro ⟨s, beyond, qs, rfl, hb, hr, hqs, rfl⟩
        obtain ⟨hf, ha⟩ := mem_splits_iff.mp hqs
        exact ⟨⟨s, beyond, qs, rfl, rfl, hb, hr, hf⟩, ha⟩
      · rintro ⟨⟨s, beyond, qs, rfl, rfl, hb, hr, hf⟩, ha⟩
        exact ⟨s, beyond, qs, rfl, hb, hr, mem_splits_iff.mpr ⟨hf, ha⟩, rfl⟩
  | .slot s :: after, input, ps => by
    rw [mem_splits_slot_iff, Fits.slot_iff]
    constructor
    · rintro ⟨span, rest, qs, rfl, hc, hqs, rfl⟩
      obtain ⟨hf, ha⟩ := mem_splits_iff.mp hqs
      exact ⟨⟨span, qs, rfl, hc, hf⟩, Extent.allows_append_iff.mpr ⟨rest, rfl, ha⟩⟩
    · rintro ⟨⟨span, qs, rfl, hc, hf⟩, ha⟩
      obtain ⟨rest, rfl, hrest⟩ := Extent.allows_append_iff.mp ha
      exact ⟨span, rest, qs, rfl, hc, mem_splits_iff.mpr ⟨hf, hrest⟩, rfl⟩
termination_by nodes => nodes.length

end ContentNegotiation
