import ContentNegotiation.Proofs.Template.Match
import ContentNegotiation.Proofs.Traversal
import ContentNegotiation.Regex.Parser

/-!
# Formatting and matching

Putting values into a pattern makes one piece of each node (`Node.filled`), and the formatted text
is what these pieces cover.

* `Bindings.Allowed` — what is put in, be it a value or a default, is what the variable may capture.
  Then the pieces fit the nodes, so the formatted text has a split, though the search may find
  another one.
* `Template.Restorable` — a match tells all of what it covers: no name stands for two captures, no
  default takes the place of an empty one, and no blanks are left out.  Then the pieces that the
  bindings make are the very pieces of the match.

Principal results: `Template.format_filled` (what the formatted text is), `Template.format_accepted`
(the template matches what it formats) and `Template.format_firstMatch` (formatting the bindings of
a match gives back the input that it covers).
-/

namespace ContentNegotiation

namespace Node

/-- The piece that the node becomes under the given values. -/
def filled (values : Bindings) : Node → Piece
  | literal text => .literal text
  | slot s => .captured s ((values.lookup s.name).getD s.var.emptyValue)

/-- The name of the variable that the node is. -/
def variableName : Node → Option Text
  | slot s => some s.name
  | literal _ => none

end Node

namespace Template

variable {t : Template} {values : Bindings}

/-! ## The formatted text -/

theorem substitute_eq_none_iff {n : Node} :
    substitute values n = none ↔
      ∃ s, n = .slot s ∧ s.var.required = true ∧ values.lookup s.name = none := by
  cases n with
  | literal text =>
      constructor
      · intro h
        cases h
      · rintro ⟨s, hs, -⟩
        cases hs
  | slot s =>
      constructor
      · intro h
        simp only [substitute] at h
        split at h
        · cases h
        · rename_i hvalue
          split at h
          · exact ⟨s, rfl, ‹_›, hvalue⟩
          · cases h
      · rintro ⟨v, hv, hrequired, hvalue⟩
        cases hv
        simp only [substitute, hvalue, hrequired, if_true]

theorem substitute_eq_some {n : Node} (h : substitute values n ≠ none) :
    substitute values n = some (n.filled values).text := by
  cases n with
  | literal text => rfl
  | slot s =>
      cases hvalue : values.lookup s.name with
      | some value => simp only [substitute, Node.filled, hvalue, Option.getD_some, Piece.text]
      | none =>
          cases hrequired : s.var.required with
          | true => exact absurd (substitute_eq_none_iff.mpr ⟨s, rfl, hrequired, hvalue⟩) h
          | false =>
              simp only [substitute, Node.filled, hvalue, hrequired, Bool.false_eq_true, if_false,
                Option.getD_none, Piece.text]

/-- Formatting fails only if a required variable has no value. -/
theorem format_eq_none_iff :
    t.format values = none ↔
      ∃ s, .slot s ∈ t.nodes ∧ s.var.required = true ∧ values.lookup s.name = none := by
  unfold format
  rw [Option.map_eq_none_iff, mapM_eq_none_iff]
  simp only [substitute_eq_none_iff]
  constructor
  · rintro ⟨_, hn, s, rfl, hs⟩
    exact ⟨s, hn, hs⟩
  · rintro ⟨s, hn, hs⟩
    exact ⟨_, hn, s, rfl, hs⟩

/-- **The formatted text is what the filled nodes cover**, if no required variable lacks a value. -/
theorem format_filled (h : t.format values ≠ none) :
    t.format values = some (Piece.covered (t.nodes.map (Node.filled values))) := by
  have hnodes : ∀ n ∈ t.nodes, substitute values n = some (n.filled values).text := by
    intro n hn
    refine substitute_eq_some fun hnone => h ?_
    obtain ⟨s, rfl, hs⟩ := substitute_eq_none_iff.mp hnone
    exact format_eq_none_iff.mpr ⟨s, hn, hs⟩
  unfold format
  rw [mapM_eq_some_map hnodes, Piece.covered, List.map_map]
  rfl

end Template

/-! ## What is formatted is matched -/

/-- A value that is put in is one that its variable may capture, and the default that takes the
place of a missing one is empty or of the kind of its variable. -/
structure Bindings.Allowed [RegexEngine] (values : Bindings) (nodes : List Node) : Prop where
  given : ∀ s value, .slot s ∈ nodes → values.lookup s.name = some value → s.Captures value
  missing : ∀ s value, .slot s ∈ nodes → s.var.required = false →
    values.lookup s.name = none → s.var.defaultValue = some value →
      value = [] ∨ s.var.kind.Describes value

theorem Slot.captures_emptyValue [RegexEngine] {s : Slot} (hfree : s.var.required = false)
    (h : ∀ value, s.var.defaultValue = some value → value = [] ∨ s.var.kind.Describes value) :
    s.Captures s.var.emptyValue := by
  unfold Slot.Captures
  split
  · exact hfree
  · rename_i hne
    unfold Variable.emptyValue at hne ⊢
    cases hdefault : s.var.defaultValue with
    | none =>
        rw [hdefault] at hne
        exact absurd rfl hne
    | some value =>
        rw [hdefault, Option.getD_some] at hne
        exact (h value hdefault).resolve_left hne

theorem fits_filled [RegexEngine] {values : Bindings} {nodes : List Node}
    (h : ∀ s, .slot s ∈ nodes → s.Captures ((values.lookup s.name).getD s.var.emptyValue)) :
    Fits nodes (nodes.map (Node.filled values)) := by
  induction nodes with
  | nil => exact .nil
  | cons n nodes ih =>
      have hrest := ih fun s hs => h s (List.mem_cons_of_mem n hs)
      cases n with
      | literal text => exact .literal hrest
      | slot s => exact .captured (h s List.mem_cons_self) hrest

namespace Template

/-- **A template matches what it formats.**  Formatting fails only if a required variable has no
value, and if the values and the defaults are allowed the template matches the text, whatever other
ways there are to take it apart. -/
theorem format_accepted [RegexEngine] (t : Template) (values : Bindings)
    (h : values.Allowed t.nodes) :
    (t.format values = none ↔
      ∃ s, .slot s ∈ t.nodes ∧ s.var.required = true ∧ values.lookup s.name = none) ∧
    ∀ text, t.format values = some text → ∃ m, t.firstMatch text = some m := by
  refine ⟨format_eq_none_iff, fun text htext => ?_⟩
  have hsome : t.format values ≠ none := by
    rw [htext]
    exact Option.some_ne_none text
  obtain rfl := Option.some.inj (htext.symm.trans (format_filled hsome))
  have hfits : Fits t.nodes (t.nodes.map (Node.filled values)) := by
    refine fits_filled fun s hs => ?_
    cases hvalue : values.lookup s.name with
    | some value => exact h.given s value hs hvalue
    | none =>
        cases hrequired : s.var.required with
        | true =>
            -- without a value for it nothing would have been formatted
            exact absurd (format_eq_none_iff.mpr ⟨s, hs, hrequired, hvalue⟩) hsome
        | false =>
            exact Slot.captures_emptyValue hrequired fun value =>
              h.missing s value hs hrequired hvalue
  exact exists_firstMatch_iff.mpr ⟨_, hfits, t.extent.allows_self _⟩

attribute [local instance] Regex.engine

/-- A mark of letters, which is `ab` where nothing is given. -/
def mark : Slot := ⟨"mark".toList, ⟨.alpha, false, some "ab".toList⟩⟩

/-- A body of any characters. -/
def body : Slot := ⟨"body".toList, .mandatory .all⟩

/-- A body between two marks. -/
def framed : Template :=
  ⟨"\x7bmark\x7d\x7bbody\x7d\x7bmark\x7d".toList, [.slot mark, .slot body, .slot mark], .whole⟩

/-- The marks that formatting has put in are found in the body. -/
theorem framed_format_accepted :
    Bindings.Allowed [(body.name, "c1".toList)] framed.nodes ∧
      framed.format [(body.name, "c1".toList)] = some "abc1ab".toList ∧
      ∃ m, framed.firstMatch "abc1ab".toList = some m ∧
        m.value body.name = some "abc1ab".toList := by
  have hnodes : ∀ s, .slot s ∈ framed.nodes → s = mark ∨ s = body := by
    intro s hs
    rcases List.mem_cons.mp hs with h | hs
    · exact Or.inl (Node.slot.inj h)
    · rcases List.mem_cons.mp hs with h | hs
      · exact Or.inr (Node.slot.inj h)
      · exact Or.inl (Node.slot.inj (List.mem_singleton.mp hs))
  have hallowed : Bindings.Allowed [(body.name, "c1".toList)] framed.nodes := by
    constructor
    · intro s value hs hvalue
      rcases hnodes s hs with rfl | rfl
      · cases hvalue
      · cases hvalue
        exact fun _ _ => rfl
    · intro s value hs hfree _ hdefault
      rcases hnodes s hs with rfl | rfl
      · cases hdefault
        exact Or.inr (List.all_eq_true.mp (by decide))
      · cases hfree
  have htext : framed.format [(body.name, "c1".toList)] = some "abc1ab".toList := by decide
  have hvalue : ∀ m, framed.firstMatch "abc1ab".toList = some m →
      m.value body.name = some "abc1ab".toList := by
    rw [firstMatch_eq]
    decide +kernel
  obtain ⟨m, hm⟩ := (format_accepted framed _ hallowed).2 _ htext
  exact ⟨hallowed, htext, m, hm, hvalue m hm⟩

end Template

/-! ## What is matched is formatted -/

namespace Piece

/-- The name of the variable that the piece captures. -/
def variableName : Piece → Option Text
  | captured s _ => some s.name
  | _ => none

/-- Where no name is captured twice every capture is the last one of its name. -/
theorem lastCapture_of_nodup {ps : List Piece} (h : (ps.filterMap variableName).Nodup) {s : Slot}
    {span : Text} (hmem : .captured s span ∈ ps) : LastCapture ps s.name s span := by
  obtain ⟨before, after, rfl⟩ := List.append_of_mem hmem
  refine ⟨before, after, rfl, rfl, ?_⟩
  rintro ⟨v, other, hv, hname⟩
  rw [List.filterMap_append, List.nodup_append] at h
  have hafter : (s.name :: after.filterMap variableName).Nodup := h.2.1
  refine (List.nodup_cons.mp hafter).1 (List.mem_filterMap.mpr ⟨_, hv, ?_⟩)
  rw [← hname]
  rfl

end Piece

/-- The pieces capture the names of the nodes one for one. -/
theorem Fits.variableNames [RegexEngine] {nodes : List Node} {ps : List Piece} (h : Fits nodes ps) :
    ps.filterMap Piece.variableName = nodes.filterMap Node.variableName := by
  induction h with
  | nil => rfl
  | literal _ ih => exact ih
  | captured _ _ ih => exact congrArg (_ :: ·) ih
  | skipped _ _ _ ih => exact congrArg (_ :: ·) ih

/-- No blanks may be left out: a variable behind a blank literal is required. -/
def KeepsBlanks (nodes : List Node) : Prop :=
  ∀ text s, [.literal text, .slot s] <:+: nodes → Text.allBlank text = true → s.var.required = true

theorem KeepsBlanks.tail {n : Node} {nodes : List Node} (h : KeepsBlanks (n :: nodes)) :
    KeepsBlanks nodes :=
  fun text s hnext => h text s (hnext.trans (List.suffix_cons n nodes).isInfix)

/-- **Where no blanks may be left out the captured spans fill the nodes** to the very pieces they
were captured from. -/
theorem Fits.map_filled [RegexEngine] {nodes : List Node} {ps : List Piece} {values : Bindings}
    (h : Fits nodes ps) (hkeeps : KeepsBlanks nodes)
    (hvalues : ∀ s span, .captured s span ∈ ps → values.lookup s.name = some span) :
    nodes.map (Node.filled values) = ps := by
  induction h with
  | nil => rfl
  | literal _ ih =>
      rw [List.map_cons, ih hkeeps.tail fun s span hs => hvalues s span (List.mem_cons_of_mem _ hs)]
      rfl
  | captured _ _ ih =>
      rw [List.map_cons, ih hkeeps.tail fun s span hs => hvalues s span (List.mem_cons_of_mem _ hs),
        Node.filled, hvalues _ _ List.mem_cons_self, Option.getD_some]
  | @skipped text s after ps hblank hfree _ _ =>
      -- blanks are left out only before a facultative variable, and there is none behind them
      have hnext : [.literal text, .slot s] <:+: Node.literal text :: .slot s :: after :=
        (List.prefix_append _ after).isInfix
      rw [hkeeps text s hnext (Text.allBlank_iff.mpr hblank)] at hfree
      cases hfree

namespace Template

/-- A match of the template tells all of what it covers. -/
structure Restorable (t : Template) : Prop where
  distinct : t.names.Nodup
  /-- An empty capture is not bound to anything else. -/
  plain : ∀ s, .slot s ∈ t.nodes → s.var.required = false → s.var.emptyValue = []
  keeps : KeepsBlanks t.nodes

/-- The bindings of a split give every captured span back. -/
theorem Restorable.lookup_ofPieces [RegexEngine] {t : Template} (ht : t.Restorable)
    {ps : List Piece} (hps : Fits t.nodes ps) {s : Slot} {span : Text} (hmem : .captured s span ∈ ps) :
    (Bindings.ofPieces ps).lookup s.name = some span := by
  have hnames : (ps.filterMap Piece.variableName).Nodup := by
    rw [hps.variableNames]
    exact ht.distinct
  rw [Bindings.lookup_ofPieces (Piece.lastCapture_of_nodup hnames hmem), Slot.bound]
  split
  · rename_i hempty
    subst hempty
    obtain ⟨hslot, hcaptures⟩ := hps.captures hmem
    exact congrArg some (ht.plain s hslot (by simpa [Slot.Captures] using hcaptures))
  · rfl

/-- **Formatting the bindings of a match gives back the input that it covers.** -/
theorem format_firstMatch [RegexEngine] (t : Template) (ht : t.Restorable) {input : Text}
    {m : TemplateMatch} (h : t.firstMatch input = some m) :
    t.format m.bindings = some m.covered ∧ m.covered <+: input ∧
      m.byteLength = Text.byteSize m.covered := by
  obtain ⟨ps, hps, rfl⟩ := firstMatch_eq_some_iff.mp h
  obtain ⟨hfits, hcovers⟩ := isSplit_of_head? hps
  refine ⟨?_, hcovers.isPrefix, rfl⟩
  have hvalues : ∀ s span, .captured s span ∈ ps →
      (Bindings.ofPieces ps).lookup s.name = some span := fun _ _ => ht.lookup_ofPieces hfits
  have hsome : t.format (Bindings.ofPieces ps) ≠ none := by
    intro hnone
    obtain ⟨s, hs, -, hvalue⟩ := format_eq_none_iff.mp hnone
    obtain ⟨v, span, hv, hname⟩ := (Piece.captured_iff_of_fits hfits).mpr ⟨s, hs, rfl⟩
    rw [← hname, hvalues v span hv] at hvalue
    cases hvalue
  exact (format_filled hsome).trans (by rw [hfits.map_filled ht.keeps hvalues]; rfl)

attribute [local instance] Regex.engine

/-- Characters of a token, or nothing. -/
def product : Slot := ⟨"product".toList, .facultative .token⟩

/-- Digits. -/
def release : Slot := ⟨"release".toList, .mandatory .digit⟩

/-- A comment, or nothing. -/
def note : Slot := ⟨"note".toList, .facultative .comment⟩

/-- A product with a release behind its last hyphen, and a note. -/
def labelled : Template :=
  ⟨"\x7bproduct\x7d-\x7brelease\x7d\x7bnote\x7d".toList,
    [.slot product, .literal ['-'], .slot release, .slot note], .beginning⟩

/-- The product is found after longer spans have failed, and the note ends before the input does. -/
theorem labelled_format_firstMatch :
    labelled.Restorable ∧ ∃ m, labelled.firstMatch "arm-12-13é)x".toList = some m ∧
      m.value product.name = some "arm-12".toList ∧ m.value note.name = some "3é".toList ∧
      labelled.format m.bindings = some "arm-12-13é".toList ∧ m.byteLength = 11 := by
  have hrestorable : labelled.Restorable := by
    refine ⟨by decide, fun s hs _ => ?_, fun text s hnext hblank => ?_⟩
    · have hslot : .slot s ∈ [Node.slot product, .literal ['-'], .slot release, .slot note] := hs
      simp only [List.mem_cons, List.not_mem_nil, or_false, Node.slot.injEq, reduceCtorEq,
        false_or] at hslot
      rcases hslot with rfl | rfl | rfl
      all_goals rfl
    · have hliteral :
          .literal text ∈ [Node.slot product, .literal ['-'], .slot release, .slot note] :=
        hnext.subset List.mem_cons_self
      simp only [List.mem_cons, List.not_mem_nil, or_false, Node.literal.injEq, reduceCtorEq,
        false_or] at hliteral
      subst hliteral
      exact absurd hblank (by decide)
  have hmatch : labelled.firstMatch "arm-12-13é)x".toList =
      some ⟨[(note.name, "3é".toList), (release.name, "1".toList),
        (product.name, "arm-12".toList)], "arm-12-13é".toList⟩ := by
    rw [firstMatch_eq]
    decide +kernel
  obtain ⟨hformat, -, hlength⟩ := format_firstMatch labelled hrestorable hmatch
  exact ⟨hrestorable, _, hmatch, by decide, by decide, hformat, hlength.trans (by decide)⟩

end Template

end ContentNegotiation
