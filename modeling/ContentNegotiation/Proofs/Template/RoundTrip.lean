import ContentNegotiation.Proofs.Template.Format
import ContentNegotiation.Proofs.Template.Priority

/-!
# Matching what was written

Values put into a pattern are found again if each variable ends where a character stands that it
does not admit.

* `Delimited` — every variable is required, and every one but the last node is followed by such a
  character.
* `Bindings.Suit` — every variable has a value that it may capture and that is not empty.
* `written` — the pieces that the values make of the nodes.

The written pieces are a split of the written text.  Any other split of it, or of its beginning,
stops short in the last variable only (`eq_written_or_stopsShort`), and there the longest span goes
first.

Principal results: `head?_splits_written` (the first split of the written text is the written one)
and `Template.firstMatch_format` (matching takes a formatted text apart into its values).
-/

namespace ContentNegotiation

/-- The text shows where each variable ends: none may be left empty, and each that is not the last
node has a literal after it that begins with a character the variable does not admit. -/
structure Delimited (nodes : List Node) : Prop where
  required : ∀ s, .slot s ∈ nodes → s.var.required = true
  ended : ∀ before s next after, nodes = before ++ .slot s :: next :: after →
    ∃ c text, next = .literal (c :: text) ∧ s.var.kind.accepts c = false

theorem Delimited.tail {n : Node} {nodes : List Node} (h : Delimited (n :: nodes)) :
    Delimited nodes :=
  ⟨fun s hs => h.required s (List.mem_cons_of_mem n hs),
    fun before s next after heq => h.ended (n :: before) s next after (by rw [heq]; rfl)⟩

theorem delimited_literal_iff {text : Text} {after : List Node} :
    Delimited (.literal text :: after) ↔ Delimited after := by
  refine ⟨Delimited.tail, fun h => ⟨fun s hs => ?_, fun before s next beyond heq => ?_⟩⟩
  · rcases List.mem_cons.mp hs with hs | hs
    · cases hs
    · exact h.required s hs
  · rcases List.cons_eq_append_iff.mp heq with ⟨-, hcons⟩ | ⟨earlier, -, heq⟩
    · cases hcons
    · exact h.ended earlier s next beyond heq

theorem delimited_last_iff {s : Slot} : Delimited [.slot s] ↔ s.var.required = true := by
  refine ⟨fun h => h.required s List.mem_cons_self, fun h => ⟨fun v hv => ?_, ?_⟩⟩
  · cases List.mem_singleton.mp hv
    exact h
  · intro before v next after heq
    have hlength := congrArg List.length heq
    simp only [List.length_cons, List.length_append, List.length_nil] at hlength
    omega

theorem delimited_slot_iff {s : Slot} {c : Char} {text : Text} {after : List Node} :
    Delimited (.slot s :: .literal (c :: text) :: after) ↔
      s.var.required = true ∧ s.var.kind.accepts c = false ∧ Delimited after := by
  constructor
  · intro h
    obtain ⟨_, _, hnext, hc⟩ := h.ended [] s _ after rfl
    cases hnext
    exact ⟨h.required s List.mem_cons_self, hc, h.tail.tail⟩
  · rintro ⟨hrequired, hc, h⟩
    have hlater : Delimited (.literal (c :: text) :: after) := delimited_literal_iff.mpr h
    refine ⟨fun v hv => ?_, fun before v next beyond heq => ?_⟩
    · rcases List.mem_cons.mp hv with hv | hv
      · cases hv
        exact hrequired
      · exact hlater.required v hv
    · rcases List.cons_eq_append_iff.mp heq with ⟨-, hcons⟩ | ⟨earlier, -, heq⟩
      · cases hcons
        exact ⟨c, text, rfl, hc⟩
      · exact hlater.ended earlier v next beyond heq

namespace Bindings

variable [RegexEngine]

/-- Every variable has a value of its grammar that is not empty. -/
def Suit (values : Bindings) (nodes : List Node) : Prop :=
  ∀ s, .slot s ∈ nodes →
    ∃ value, values.lookup s.name = some value ∧ value ≠ [] ∧ s.var.kind.Describes value

theorem Suit.tail {values : Bindings} {n : Node} {nodes : List Node}
    (h : values.Suit (n :: nodes)) : values.Suit nodes :=
  fun s hs => h s (List.mem_cons_of_mem n hs)

theorem suit_nil (values : Bindings) : values.Suit [] :=
  fun _ hs => nomatch hs

theorem Suit.literal {values : Bindings} {nodes : List Node} (h : values.Suit nodes)
    (text : Text) : values.Suit (.literal text :: nodes) := by
  intro s hs
  rcases List.mem_cons.mp hs with hs | hs
  · cases hs
  · exact h s hs

theorem Suit.slot {values : Bindings} {s : Slot} {nodes : List Node} {value : Text}
    (h : values.Suit nodes) (hvalue : values.lookup s.name = some value) (hne : value ≠ [])
    (hdesc : s.var.kind.Describes value) : values.Suit (.slot s :: nodes) := by
  intro v hv
  rcases List.mem_cons.mp hv with hv | hv
  · cases hv
    exact ⟨value, hvalue, hne, hdesc⟩
  · exact h v hv

end Bindings

/-! ## What is captured is admitted -/

theorem Kind.Describes.accepts [RegexEngine] {k : Kind} {t : Text} (h : k.Describes t) :
    ∀ c ∈ t, k.accepts c = true := by
  cases k with
  | comment => exact h.1
  | custom source => exact fun _ _ => rfl
  | all => exact h
  | alpha => exact h
  | alphaDigit => exact h
  | commentAttribute => exact h
  | digit => exact h
  | token => exact h
  | uriSegment => exact h

theorem Slot.Captures.accepts [RegexEngine] {s : Slot} {span : Text} (h : s.Captures span) :
    ∀ c ∈ span, s.var.kind.accepts c = true := by
  unfold Slot.Captures at h
  split at h
  · rename_i hempty
    subst hempty
    exact fun c hc => nomatch hc
  · exact h.accepts

/-- Two runs of admitted characters that end at the same character, which is not admitted, are the
same run if one text begins with the other. -/
theorem eq_of_ended {p : Char → Bool} {a b s t : Text} {c : Char} (ha : ∀ x ∈ a, p x = true)
    (hb : ∀ x ∈ b, p x = true) (hc : p c = false) (h : a ++ c :: s <+: b ++ c :: t) : a = b := by
  have hrun : ∀ {u v : Text}, (∀ x ∈ u, p x = true) → (u ++ c :: v).takeWhile p = u := by
    intro u v hu
    rw [List.takeWhile_append_of_pos hu, List.takeWhile_cons_of_neg (by simp [hc]), List.append_nil]
  obtain ⟨rest, hrest⟩ := h
  rw [List.append_assoc, List.cons_append] at hrest
  rw [← hrun ha, hrest, hrun hb]

/-! ## The written split -/

/-- The pieces that values make of the nodes. -/
def written (values : Bindings) : List Node → List Piece
  | [] => []
  | .literal text :: after => .literal text :: written values after
  | .slot s :: after => .captured s ((values.lookup s.name).getD []) :: written values after

section Written

variable {values : Bindings} {nodes : List Node}

theorem length_written : ∀ nodes : List Node, (written values nodes).length = nodes.length
  | [] => rfl
  | .literal _ :: after => congrArg (· + 1) (length_written after)
  | .slot _ :: after => congrArg (· + 1) (length_written after)

theorem mem_written {s : Slot} {span : Text} (h : .captured s span ∈ written values nodes) :
    .slot s ∈ nodes ∧ span = (values.lookup s.name).getD [] := by
  induction nodes with
  | nil => cases h
  | cons n nodes ih =>
      cases n with
      | literal text =>
          rcases List.mem_cons.mp h with h | h
          · cases h
          · exact ⟨List.mem_cons_of_mem _ (ih h).1, (ih h).2⟩
      | slot v =>
          rcases List.mem_cons.mp h with h | h
          · cases h
            exact ⟨List.mem_cons_self, rfl⟩
          · exact ⟨List.mem_cons_of_mem _ (ih h).1, (ih h).2⟩

variable [RegexEngine]

/-- Where every variable has a value the written pieces are those of formatting. -/
theorem written_eq_map_filled :
    ∀ {nodes : List Node}, values.Suit nodes → written values nodes = nodes.map (Node.filled values)
  | [], _ => rfl
  | .literal text :: after, hv => by
    rw [written, written_eq_map_filled hv.tail, List.map_cons, Node.filled]
  | .slot s :: after, hv => by
    obtain ⟨value, hvalue, -⟩ := hv s List.mem_cons_self
    rw [written, written_eq_map_filled hv.tail, List.map_cons, Node.filled, hvalue,
      Option.getD_some, Option.getD_some]

theorem fits_written (hv : values.Suit nodes) : Fits nodes (written values nodes) := by
  rw [written_eq_map_filled hv]
  refine fits_filled fun s hs => ?_
  obtain ⟨value, hvalue, hne, hdesc⟩ := hv s hs
  rw [hvalue, Option.getD_some, Slot.Captures, if_neg hne]
  exact hdesc

/-- Where the variable after it is required a literal is never left out. -/
theorem Fits.literal_of_delimited {text : Text} {after : List Node} {ps : List Piece}
    (hd : Delimited after) (h : Fits (.literal text :: after) ps) :
    ∃ qs, ps = .literal text :: qs ∧ Fits after qs := by
  rcases Fits.literal_iff.mp h with hfound | ⟨s, beyond, qs, rfl, -, -, hfree, -⟩
  · exact hfound
  · rw [hd.required s List.mem_cons_self] at hfree
    cases hfree

/-- Two splits that differ in the last variable only, where the first one captures less. -/
def StopsShort (ps qs : List Piece) : Prop :=
  ∃ first s span value, ps = first ++ [.captured s span] ∧ qs = first ++ [.captured s value] ∧
    span.length < value.length

omit [RegexEngine] in
theorem StopsShort.cons {ps qs : List Piece} (h : StopsShort ps qs) (p : Piece) :
    StopsShort (p :: ps) (p :: qs) := by
  obtain ⟨first, s, span, value, rfl, rfl, hlt⟩ := h
  exact ⟨p :: first, s, span, value, rfl, rfl, hlt⟩

/-- **A split of the written text, or of its beginning, is the written one** or stops short in the
last variable. -/
theorem eq_written_or_stopsShort : ∀ {nodes : List Node} {ps : List Piece}, Delimited nodes →
    values.Suit nodes → Fits nodes ps → Piece.covered ps <+: Piece.covered (written values nodes) →
      ps = written values nodes ∨ StopsShort ps (written values nodes)
  | [], ps, _, _, hf, _ => Or.inl (Fits.nil_iff.mp hf)
  | .literal text :: after, ps, hd, hv, hf, hp => by
    obtain ⟨qs, rfl, hqs⟩ := hf.literal_of_delimited hd.tail
    have hrest := (List.prefix_append_right_inj text).mp hp
    rw [written]
    rcases eq_written_or_stopsShort hd.tail hv.tail hqs hrest with heq | hshort
    · exact Or.inl (by rw [heq])
    · exact Or.inr (hshort.cons _)
  | .slot s :: after, ps, hd, hv, hf, hp => by
    obtain ⟨span, qs, rfl, hcap, hqs⟩ := Fits.slot_iff.mp hf
    obtain ⟨value, hvalue, -, hdesc⟩ := hv s List.mem_cons_self
    have hwritten : written values (.slot s :: after) =
        .captured s value :: written values after := by
      rw [written, hvalue, Option.getD_some]
    rw [hwritten] at hp ⊢
    rcases after with _ | ⟨next, beyond⟩
    · -- the last node: the span may be any beginning of the value
      obtain rfl := Fits.nil_iff.mp hqs
      rw [written]
      have hspan : span <+: value := by simpa [written, Piece.text] using hp
      rcases Nat.lt_or_ge span.length value.length with hlt | hge
      · exact Or.inr ⟨[], s, span, value, rfl, rfl, hlt⟩
      · exact Or.inl (by rw [hspan.eq_of_length_le hge])
    · -- the span ends where the value does, at the literal behind the variable
      obtain ⟨c, text, rfl, hc⟩ := hd.ended [] s next beyond rfl
      obtain ⟨rs, rfl, -⟩ := hqs.literal_of_delimited hd.tail.tail
      have hsame : span = value := eq_of_ended hcap.accepts hdesc.accepts hc hp
      subst hsame
      have hrest := (List.prefix_append_right_inj span).mp hp
      rcases eq_written_or_stopsShort hd.tail hv.tail hqs hrest with heq | hshort
      · exact Or.inl (by rw [heq])
      · exact Or.inr (hshort.cons _)

/-- **The first split of the written text is the written one**, whatever the template has to
cover. -/
theorem head?_splits_written (extent : Extent) (hd : Delimited nodes) (hv : values.Suit nodes) :
    (splits extent nodes (Piece.covered (written values nodes))).head? =
      some (written values nodes) := by
  have hmem : written values nodes ∈ splits extent nodes (Piece.covered (written values nodes)) :=
    mem_splits_iff.mpr ⟨fits_written hv, extent.allows_self _⟩
  obtain ⟨ps, hps⟩ := Option.isSome_iff_exists.mp
    (List.isSome_head?.mpr (List.ne_nil_of_mem hmem))
  obtain ⟨hfits, hallows⟩ := mem_splits_iff.mp (List.mem_of_mem_head? hps)
  rcases eq_written_or_stopsShort hd hv hfits hallows.isPrefix with
    heq | ⟨first, s, span, value, hshort, hwritten, hlt⟩
  · rw [hps, heq]
  · -- a split that stops short cannot go before the written one
    exfalso
    have hne : Piece.captured s span ≠ .captured s value := by
      rintro h
      cases h
      exact Nat.lt_irrefl _ hlt
    have hprec := rel_of_head? (splits_pairwise nodes _) hps hmem
      (by rw [hshort, hwritten]; simpa using hne.symm)
    rw [hshort, hwritten] at hprec
    have hlast : nodes.drop (first.length + 1) = [] := by
      have hlength : (written values nodes).length = nodes.length := length_written nodes
      rw [List.drop_eq_nil_iff, ← hlength, hwritten]
      simp
    have hbefore := hprec.before hne
    rw [hlast] at hbefore
    cases hbefore with
    | shorter hnot _ => exact hnot (Or.inl rfl)
    | longer _ hgt => exact Nat.lt_asymm hlt hgt

end Written

/-! ## Writing and matching -/

namespace Template

variable {t : Template} {values : Bindings}

/-- The formatted text is what the written pieces cover. -/
theorem format_eq [RegexEngine] (hv : values.Suit t.nodes) :
    t.format values = some (Piece.covered (written values t.nodes)) := by
  have hsome : t.format values ≠ none := by
    intro hnone
    obtain ⟨s, hs, -, hvalue⟩ := format_eq_none_iff.mp hnone
    obtain ⟨value, hsome, -⟩ := hv s hs
    rw [hvalue] at hsome
    cases hsome
  rw [format_filled hsome, written_eq_map_filled hv]

/-- The written pieces bind the names of the pattern to the values. -/
theorem value_ofPieces_written [RegexEngine] (hv : values.Suit t.nodes) (name : Text) :
    (TemplateMatch.ofPieces (written values t.nodes)).value name =
      if name ∈ t.names then values.lookup name else none := by
  have hnames : Piece.Captured (written values t.nodes) name ↔ name ∈ t.names := by
    rw [Piece.captured_iff_of_fits (fits_written hv), mem_names_iff]
  split
  · rename_i hname
    obtain ⟨s, span, hlast⟩ := Piece.exists_lastCapture (hnames.mpr hname)
    obtain ⟨hslot, hspan⟩ := mem_written hlast.mem
    obtain ⟨value, hvalue, hne, -⟩ := hv s hslot
    rw [hvalue, Option.getD_some] at hspan
    subst hspan
    unfold TemplateMatch.value
    rw [TemplateMatch.ofPieces, Bindings.lookup_ofPieces hlast, ← hlast.name_eq, hvalue,
      Slot.bound, if_neg hne]
  · rename_i hname
    exact TemplateMatch.value_ofPieces_of_not_captured (hnames.not.mpr hname)

/-- **Matching takes a formatted text apart into its values.** -/
theorem firstMatch_format [RegexEngine] (t : Template) (values : Bindings) (ht : Delimited t.nodes)
    (hv : values.Suit t.nodes) :
    ∃ text m, t.format values = some text ∧ t.firstMatch text = some m ∧
      (m.bindings.map (·.1)).Nodup ∧
      (∀ name, m.value name = if name ∈ t.names then values.lookup name else none) ∧
      m.covered = text ∧ m.byteLength = Text.byteSize text := by
  refine ⟨_, _, format_eq hv, ?_, ?_, value_ofPieces_written hv, rfl, rfl⟩
  · rw [firstMatch_eq, head?_splits_written t.extent ht hv]
    rfl
  · exact Bindings.keys_nodup_foldl_take List.nodup_nil

attribute [local instance] Regex.engine

/-- A name, which is written twice, and a note. -/
def signed : Template :=
  ⟨"\x7bname\x7d/\x7bname\x7d \x7bnote\x7d".toList,
    [.slot ⟨"name".toList, .mandatory .token⟩, .literal ['/'],
      .slot ⟨"name".toList, .mandatory .token⟩, .literal [' '],
      .slot ⟨"note".toList, .mandatory .comment⟩], .beginning⟩

/-- A name, and a note with parentheses in it. -/
def signature : Bindings :=
  [("name".toList, "gcc".toList), ("note".toList, "(x) (y z)".toList)]

theorem signed_firstMatch_format :
    Delimited signed.nodes ∧ signature.Suit signed.nodes ∧
      ∃ m, signed.firstMatch "gcc/gcc (x) (y z)".toList = some m ∧
        m.value "name".toList = some "gcc".toList ∧
        m.value "note".toList = some "(x) (y z)".toList ∧ m.byteLength = 17 := by
  have hd : Delimited signed.nodes :=
    delimited_slot_iff.mpr ⟨rfl, by decide, delimited_slot_iff.mpr ⟨rfl, by decide,
      delimited_last_iff.mpr rfl⟩⟩
  have hname : Kind.token.Describes "gcc".toList :=
    List.all_eq_true.mp (by decide)
  have hnote : Kind.comment.Describes "(x) (y z)".toList :=
    ⟨List.all_eq_true.mp (by decide), by decide⟩
  have hv : signature.Suit signed.nodes := by
    refine .slot (.literal (.slot (.literal (.slot (Bindings.suit_nil signature)
      ?_ ?_ hnote) _) ?_ ?_ hname) _) ?_ ?_ hname <;> decide
  obtain ⟨text, m, hformat, hm, -, hvalue, -, hlength⟩ := firstMatch_format signed signature hd hv
  have htext : signed.format signature = some "gcc/gcc (x) (y z)".toList := by decide
  cases htext.symm.trans hformat
  refine ⟨hd, hv, m, hm, ?_, ?_, ?_⟩
  · rw [hvalue]
    decide
  · rw [hvalue]
    decide
  · rw [hlength]
    decide

end Template

end ContentNegotiation
