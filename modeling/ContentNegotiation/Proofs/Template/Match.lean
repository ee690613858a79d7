import ContentNegotiation.Proofs.Template.Search

/-!
# What a match says

A match is made of the split that the search has found.  Its bindings are written one after the
other in pattern order, and a later capture replaces an earlier one of the same name.

Principal results: `Bindings.lookup_ofPieces` (the last capture of a name counts),
`Template.firstMatch_eq` (the match of a template is made of its first split) and
`Template.firstMatch_describes` (a template matches exactly the inputs that have a split).
-/

namespace ContentNegotiation

namespace Bindings

theorem mem_keys_set {b : Bindings} {name value other : Text} :
    other ∈ (b.set name value).map (·.1) ↔ other = name ∨ other ∈ b.map (·.1) := by
  unfold set
  rw [List.map_cons, List.mem_cons]
  by_cases h : other = name
  · simp [h]
  · simp [h, List.mem_map, List.mem_filter]

theorem keys_nodup_set {b : Bindings} (hb : (b.map (·.1)).Nodup) (name value : Text) :
    ((b.set name value).map (·.1)).Nodup := by
  unfold set
  rw [List.map_cons, List.nodup_cons]
  refine ⟨?_, hb.sublist (List.filter_sublist.map _)⟩
  simp [List.mem_map, List.mem_filter]

theorem lookup_set_self (b : Bindings) (name value : Text) :
    (b.set name value).lookup name = some value := by
  unfold set
  rw [List.lookup_cons_self]

theorem lookup_set_of_ne {b : Bindings} {name value other : Text} (h : other ≠ name) :
    (b.set name value).lookup other = b.lookup other := by
  have hfilter : (b.filter (·.1 != name)).lookup other = b.lookup other := by
    induction b with
    | nil => rfl
    | cons e b ih =>
        obtain ⟨key, v⟩ := e
        by_cases hk : key = name
        · subst hk
          rw [List.filter_cons_of_neg (by simp), ih, List.lookup_cons, beq_false_of_ne h]
        · rw [List.filter_cons_of_pos (by simpa using hk), List.lookup_cons, List.lookup_cons, ih]
  unfold set
  rw [List.lookup_cons, beq_false_of_ne h]
  exact hfilter

/-- Where no name stands twice every entry is found under its name. -/
theorem lookup_of_mem {b : Bindings} (hb : (b.map (·.1)).Nodup) {name value : Text}
    (h : (name, value) ∈ b) : b.lookup name = some value := by
  obtain ⟨before, after, rfl⟩ := List.append_of_mem h
  refine List.lookup_eq_some_iff.mpr ⟨before, after, rfl, fun e he => ?_⟩
  rw [List.map_append, List.map_cons, List.nodup_append] at hb
  have hne := hb.2.2 e.1 (List.mem_map_of_mem he) name List.mem_cons_self
  simpa using Ne.symm hne

end Bindings

/-! ## The last capture of a name -/

namespace Piece

/-- Some piece captures the name. -/
def Captured (ps : List Piece) (name : Text) : Prop :=
  ∃ s span, .captured s span ∈ ps ∧ s.name = name

/-- The last piece that captures the name is this one. -/
def LastCapture (ps : List Piece) (name : Text) (s : Slot) (span : Text) : Prop :=
  ∃ before after, ps = before ++ .captured s span :: after ∧ s.name = name ∧
    ¬ Captured after name

theorem LastCapture.mem {ps : List Piece} {name : Text} {s : Slot} {span : Text}
    (h : LastCapture ps name s span) : .captured s span ∈ ps := by
  obtain ⟨before, after, rfl, -⟩ := h
  exact List.mem_append_right before List.mem_cons_self

theorem LastCapture.name_eq {ps : List Piece} {name : Text} {s : Slot} {span : Text}
    (h : LastCapture ps name s span) : s.name = name := by
  obtain ⟨_, _, -, hname, -⟩ := h
  exact hname

theorem captured_cons_iff {p : Piece} {ps : List Piece} {name : Text} :
    Captured (p :: ps) name ↔ (∃ s span, p = .captured s span ∧ s.name = name) ∨
      Captured ps name := by
  simp only [Captured, List.mem_cons, or_and_right, exists_or, eq_comm]

@[simp] theorem not_captured_nil {name : Text} : ¬ Captured [] name := by
  rintro ⟨s, span, h, -⟩
  cases h

@[simp] theorem captured_literal_iff {t : Text} {ps : List Piece} {name : Text} :
    Captured (.literal t :: ps) name ↔ Captured ps name := by
  simp [captured_cons_iff]

@[simp] theorem captured_skipped_iff {ps : List Piece} {name : Text} :
    Captured (.skipped :: ps) name ↔ Captured ps name := by
  simp [captured_cons_iff]

@[simp] theorem captured_slot_iff {s : Slot} {span : Text} {ps : List Piece} {name : Text} :
    Captured (.captured s span :: ps) name ↔ s.name = name ∨ Captured ps name := by
  simp [captured_cons_iff]

theorem captured_append_iff {ps qs : List Piece} {name : Text} :
    Captured (ps ++ qs) name ↔ Captured ps name ∨ Captured qs name := by
  simp only [Captured, List.mem_append, or_and_right, exists_or]

theorem LastCapture.append {ps qs : List Piece} {name : Text} {s : Slot} {span : Text}
    (h : LastCapture ps name s span) (hqs : ¬ Captured qs name) :
    LastCapture (ps ++ qs) name s span := by
  obtain ⟨before, after, rfl, hname, hafter⟩ := h
  refine ⟨before, after ++ qs, by simp, hname, ?_⟩
  rw [captured_append_iff, not_or]
  exact ⟨hafter, hqs⟩

theorem LastCapture.prepend {qs : List Piece} {name : Text} {s : Slot} {span : Text}
    (h : LastCapture qs name s span) (ps : List Piece) : LastCapture (ps ++ qs) name s span := by
  obtain ⟨before, after, rfl, hname, hafter⟩ := h
  exact ⟨ps ++ before, after, by simp, hname, hafter⟩

theorem exists_lastCapture {ps : List Piece} {name : Text} (h : Captured ps name) :
    ∃ s span, LastCapture ps name s span := by
  induction ps with
  | nil => exact absurd h not_captured_nil
  | cons p ps ih =>
      by_cases hps : Captured ps name
      · obtain ⟨s, span, before, after, rfl, hn, ha⟩ := ih hps
        exact ⟨s, span, p :: before, after, rfl, hn, ha⟩
      · rcases captured_cons_iff.mp h with ⟨s, span, rfl, hn⟩ | h
        · exact ⟨s, span, [], ps, rfl, hn, hps⟩
        · exact absurd h hps

/-- Every node of a variable has its capture among the pieces. -/
theorem captured_iff_of_fits [RegexEngine] {nodes : List Node} {ps : List Piece} (h : Fits nodes ps)
    {name : Text} : Captured ps name ↔ ∃ s, .slot s ∈ nodes ∧ s.name = name := by
  induction h with
  | nil => simp [Captured]
  | literal _ ih =>
      rw [captured_cons_iff, ih]
      simp
  | captured _ _ ih =>
      rw [captured_cons_iff, ih]
      simp [eq_comm, or_and_right, exists_or]
  | skipped _ _ _ ih =>
      rw [captured_cons_iff, captured_cons_iff, ih]
      simp [eq_comm, or_and_right, exists_or]

theorem text_isInfix_covered {p : Piece} {ps : List Piece} (h : p ∈ ps) :
    p.text <:+: covered ps :=
  List.infix_of_mem_flatten (List.mem_map_of_mem h)

end Piece

/-- A captured span is one that a variable of the pattern may capture. -/
theorem Fits.captures [RegexEngine] {nodes : List Node} {ps : List Piece} (h : Fits nodes ps)
    {s : Slot} {span : Text} (hmem : .captured s span ∈ ps) : .slot s ∈ nodes ∧ s.Captures span := by
  induction h with
  | nil => cases hmem
  | literal _ ih =>
      rcases List.mem_cons.mp hmem with hmem | hmem
      · cases hmem
      · exact ⟨List.mem_cons_of_mem _ (ih hmem).1, (ih hmem).2⟩
  | captured hcap _ ih =>
      rcases List.mem_cons.mp hmem with hmem | hmem
      · cases hmem
        exact ⟨List.mem_cons_self, hcap⟩
      · exact ⟨List.mem_cons_of_mem _ (ih hmem).1, (ih hmem).2⟩
  | @skipped text v after ps _ hfree _ ih =>
      simp only [List.mem_cons, reduceCtorEq, false_or] at hmem ⊢
      rcases hmem with hmem | hmem
      · cases hmem
        exact ⟨Or.inl rfl, by rw [Slot.Captures, if_pos rfl, hfree]⟩
      · exact ⟨Or.inr (ih hmem).1, (ih hmem).2⟩

namespace Slot

/-- The value that a capture gives to the name of its variable. -/
def bound (s : Slot) (span : Text) : Text :=
  if span = [] then s.var.defaultValue.getD [] else span

end Slot

namespace Bindings

theorem take_captured (b : Bindings) (s : Slot) (span : Text) :
    b.take (.captured s span) = b.set s.name (s.bound span) := by
  cases span <;> rfl

/-! ## What one piece and what all pieces bind -/

theorem keys_nodup_take {b : Bindings} (hb : (b.map (·.1)).Nodup) (p : Piece) :
    ((b.take p).map (·.1)).Nodup := by
  cases p with
  | literal _ => exact hb
  | skipped => exact hb
  | captured s span =>
      rw [take_captured]
      exact keys_nodup_set hb ..

theorem mem_keys_take {b : Bindings} {p : Piece} {name : Text} :
    name ∈ (b.take p).map (·.1) ↔
      (∃ s span, p = .captured s span ∧ s.name = name) ∨ name ∈ b.map (·.1) := by
  cases p with
  | literal _ => simp [take]
  | skipped => simp [take]
  | captured s span =>
      rw [take_captured, mem_keys_set]
      simp [eq_comm]

theorem lookup_take_of_ne {b : Bindings} {p : Piece} {name : Text}
    (h : ¬ ∃ s span, p = .captured s span ∧ s.name = name) :
    (b.take p).lookup name = b.lookup name := by
  cases p with
  | literal _ => rfl
  | skipped => rfl
  | captured s span =>
      rw [take_captured]
      refine lookup_set_of_ne ?_
      rintro rfl
      exact h ⟨s, span, rfl, rfl⟩

theorem keys_nodup_foldl_take {ps : List Piece} {b : Bindings} (hb : (b.map (·.1)).Nodup) :
    ((ps.foldl take b).map (·.1)).Nodup := by
  induction ps generalizing b with
  | nil => exact hb
  | cons p ps ih => exact ih (keys_nodup_take hb p)

theorem mem_keys_foldl_take {ps : List Piece} {b : Bindings} {name : Text} :
    name ∈ (ps.foldl take b).map (·.1) ↔ Piece.Captured ps name ∨ name ∈ b.map (·.1) := by
  induction ps generalizing b with
  | nil => simp [Piece.Captured]
  | cons p ps ih => rw [List.foldl_cons, ih, mem_keys_take, Piece.captured_cons_iff, or_left_comm,
      or_assoc]

theorem lookup_foldl_take_of_not_captured {ps : List Piece} {b : Bindings} {name : Text}
    (h : ¬ Piece.Captured ps name) : (ps.foldl take b).lookup name = b.lookup name := by
  induction ps generalizing b with
  | nil => rfl
  | cons p ps ih =>
      rw [Piece.captured_cons_iff, not_or] at h
      rw [List.foldl_cons, ih h.2, lookup_take_of_ne h.1]

/-- **The last capture of a name counts.** -/
theorem lookup_ofPieces {ps : List Piece} {name : Text} {s : Slot} {span : Text}
    (h : Piece.LastCapture ps name s span) : (ofPieces ps).lookup name = some (s.bound span) := by
  obtain ⟨before, after, rfl, rfl, ha⟩ := h
  unfold ofPieces
  rw [List.foldl_append, List.foldl_cons, lookup_foldl_take_of_not_captured ha,
    take_captured, lookup_set_self]

end Bindings

namespace TemplateMatch

variable {ps : List Piece} {name : Text}

/-- Without a default value a name has the very span that is captured last. -/
theorem value_ofPieces {s : Slot} {span : Text} (h : Piece.LastCapture ps name s span)
    (hdefault : s.var.defaultValue = none) : (ofPieces ps).value name = some span := by
  have hbound : s.bound span = span := by
    unfold Slot.bound
    rw [hdefault]
    split
    · rename_i hempty
      rw [hempty]
      rfl
    · rfl
  unfold value
  rw [ofPieces, Bindings.lookup_ofPieces h, hbound]

theorem value_ofPieces_of_not_captured (h : ¬ Piece.Captured ps name) :
    (ofPieces ps).value name = none :=
  Bindings.lookup_foldl_take_of_not_captured h

end TemplateMatch

/-! ## Matches -/

namespace Template

theorem mem_names_iff {t : Template} {name : Text} :
    name ∈ t.names ↔ ∃ s, .slot s ∈ t.nodes ∧ s.name = name := by
  unfold names
  rw [List.mem_filterMap]
  constructor
  · rintro ⟨n, hn, hname⟩
    cases n with
    | literal _ => cases hname
    | slot s => exact ⟨s, hn, Option.some.inj hname⟩
  · rintro ⟨s, hs, rfl⟩
    exact ⟨.slot s, hs, rfl⟩

variable [RegexEngine]

theorem mem_splits_iff_isSplit {t : Template} {input : Text} {ps : List Piece} :
    ps ∈ splits t.extent t.nodes input ↔ t.IsSplit input ps := by
  rw [mem_splits_iff]
  exact ⟨fun h => ⟨h.1, h.2⟩, fun h => ⟨h.fits, h.covers⟩⟩

/-- The match of a template is made of its first split. -/
theorem firstMatch_eq (t : Template) (input : Text) :
    t.firstMatch input = (splits t.extent t.nodes input).head?.map .ofPieces := by
  unfold firstMatch
  rw [search_eq_head?]

theorem firstMatch_eq_some_iff {t : Template} {input : Text} {m : TemplateMatch} :
    t.firstMatch input = some m ↔
      ∃ ps, (splits t.extent t.nodes input).head? = some ps ∧ m = .ofPieces ps := by
  rw [firstMatch_eq, Option.map_eq_some_iff]
  simp only [eq_comm]

theorem isSplit_of_head? {t : Template} {input : Text} {ps : List Piece}
    (h : (splits t.extent t.nodes input).head? = some ps) : t.IsSplit input ps :=
  mem_splits_iff_isSplit.mp (List.mem_of_mem_head? h)

theorem exists_firstMatch_iff {t : Template} {input : Text} :
    (∃ m, t.firstMatch input = some m) ↔ ∃ ps, t.IsSplit input ps := by
  simp only [firstMatch_eq_some_iff, ← mem_splits_iff_isSplit]
  cases splits t.extent t.nodes input with
  | nil => simp
  | cons ps pss => exact ⟨fun _ => ⟨ps, List.mem_cons_self⟩, fun _ => ⟨_, ps, rfl, rfl⟩⟩

theorem keys_nodup_of_firstMatch {t : Template} {input : Text} {m : TemplateMatch}
    (h : t.firstMatch input = some m) : (m.bindings.map (·.1)).Nodup := by
  obtain ⟨ps, -, rfl⟩ := firstMatch_eq_some_iff.mp h
  exact Bindings.keys_nodup_foldl_take List.nodup_nil

/-- A match binds the names of the pattern. -/
theorem mem_keys_of_firstMatch {t : Template} {input : Text} {m : TemplateMatch}
    (h : t.firstMatch input = some m) {name : Text} :
    name ∈ m.bindings.map (·.1) ↔ name ∈ t.names := by
  obtain ⟨ps, hps, rfl⟩ := firstMatch_eq_some_iff.mp h
  rw [mem_names_iff, ← Piece.captured_iff_of_fits (isSplit_of_head? hps).fits]
  exact Bindings.mem_keys_foldl_take.trans (by simp)

/-- Without default values every bound value is a span of the input that its variable captures. -/
theorem exists_capture_of_value {t : Template} {input : Text} {m : TemplateMatch}
    (h : t.firstMatch input = some m)
    (hdefault : ∀ s, .slot s ∈ t.nodes → s.var.defaultValue = none) {name value : Text}
    (hvalue : m.value name = some value) :
    ∃ s, .slot s ∈ t.nodes ∧ s.name = name ∧ s.Captures value ∧ value <:+: input := by
  obtain ⟨ps, hps, rfl⟩ := firstMatch_eq_some_iff.mp h
  have hsplit := isSplit_of_head? hps
  have hcaptured : Piece.Captured ps name := by
    by_contra hnot
    rw [TemplateMatch.value_ofPieces_of_not_captured hnot] at hvalue
    cases hvalue
  obtain ⟨s, span, hlast⟩ := Piece.exists_lastCapture hcaptured
  obtain ⟨hslot, hcaptures⟩ := hsplit.fits.captures hlast.mem
  rw [TemplateMatch.value_ofPieces hlast (hdefault s hslot)] at hvalue
  obtain rfl := Option.some.inj hvalue
  have hcovered : span <:+: Piece.covered ps := Piece.text_isInfix_covered hlast.mem
  exact ⟨s, hslot, hlast.name_eq, hcaptures, hcovered.trans hsplit.covers.isPrefix.isInfix⟩

/-- **A template matches exactly the inputs that have a split**, and a match says what one split of
the input says: each name of the pattern has the value of its last capture, and the covered part is
the beginning of the input that the pieces cover. -/
theorem firstMatch_describes (t : Template) (input : Text) :
    ((∃ m, t.firstMatch input = some m) ↔ ∃ ps, t.IsSplit input ps) ∧
    ∀ m, t.firstMatch input = some m → ∃ ps, t.IsSplit input ps ∧
      (m.bindings.map (·.1)).Nodup ∧
      (∀ name, name ∈ m.bindings.map (·.1) ↔ name ∈ t.names) ∧
      (∀ name ∈ t.names, ∃ s span, Piece.LastCapture ps name s span ∧
        m.value name = some (if span = [] then s.var.defaultValue.getD [] else span)) ∧
      m.covered = Piece.covered ps ∧ m.covered <+: input ∧
      m.byteLength = Text.byteSize (Piece.covered ps) ∧
      m.charLength = (Piece.covered ps).length := by
  refine ⟨exists_firstMatch_iff, ?_⟩
  intro m hm
  obtain ⟨ps, hps, rfl⟩ := firstMatch_eq_some_iff.mp hm
  have hsplit := isSplit_of_head? hps
  have hnames : ∀ name, Piece.Captured ps name ↔ name ∈ t.names := fun name => by
    rw [Piece.captured_iff_of_fits hsplit.fits, mem_names_iff]
  refine ⟨ps, hsplit, Bindings.keys_nodup_foldl_take List.nodup_nil, ?_, ?_, rfl,
    hsplit.covers.isPrefix, rfl, rfl⟩
  · intro name
    rw [← hnames]
    exact Bindings.mem_keys_foldl_take.trans (by simp)
  · intro name hname
    obtain ⟨s, span, hlast⟩ := Piece.exists_lastCapture ((hnames name).mpr hname)
    exact ⟨s, span, hlast, Bindings.lookup_ofPieces hlast⟩

end Template

end ContentNegotiation
