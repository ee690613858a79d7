import ContentNegotiation.Text.Character
import Mathlib.Data.List.DropRight
import Mathlib.Data.List.TakeWhile

/-!
# Trimming and splitting

What the cutting operations do to a text whose parts are known.

* `Text.Trimmed` — the text neither begins nor ends with a blank.
* `Text.trim_eq_self_iff` — these are the texts that trimming leaves as they are.
* `Text.pieces_flatten` — splitting at a separator undoes writing it before each piece.
* `Text.pieces_injective` — a text is known by its pieces.
* `Text.splitAll_append_cons` — a separator splits a text into what stands on its two sides.
* `Text.trim_around` — trimming stops on both sides of a character that is no blank.
* `Text.map_trim_splitAll_blank_append`, `Text.map_trim_splitAll_append_blank` — blanks around a
  text do not change its trimmed pieces.
* `Text.append_cons_inj_first`, `Text.append_cons_inj_last` and `Text.append_cons_inj_twice` — where
  a separator stands in known places, a text is cut at it in only one way.
-/

namespace ContentNegotiation

namespace Text

/-! ## Trimming -/

/-- The text neither begins nor ends with a blank. -/
structure Trimmed (t : Text) : Prop where
  head : ∀ c, t.head? = some c → isBlank c = false
  last : ∀ c, t.getLast? = some c → isBlank c = false

theorem trim_eq (t : Text) : trim t = (t.dropWhile isBlank).rdropWhile isBlank := rfl

theorem Trimmed.trim {t : Text} (h : Trimmed t) : t.trim = t := by
  have hleft : t.dropWhile isBlank = t := by
    cases t with
    | nil => rfl
    | cons c t => rw [List.dropWhile_cons_of_neg (by simp [h.head c rfl])]
  rw [trim_eq, hleft, List.rdropWhile_eq_self_iff]
  intro hne
  simp [h.last _ (List.getLast?_eq_some_getLast hne)]

/-- A text that is cut at both ends begins with no character of those that are cut off. -/
theorem head_of_cut {p : Char → Bool} {t : Text} {c : Char}
    (hc : ((t.dropWhile p).rdropWhile p).head? = some c) : p c = false := by
  -- what is left after cutting at the end begins like the text cut at its beginning
  obtain ⟨rest, hrest⟩ := List.rdropWhile_prefix p (t.dropWhile p)
  obtain ⟨left, hleft⟩ := List.head?_eq_some_iff.mp hc
  rw [hleft] at hrest
  have hhead := List.head?_dropWhile_not p t
  rw [← hrest] at hhead
  simpa using hhead

theorem trimmed_trim (t : Text) : Trimmed t.trim := by
  rw [trim_eq]
  refine ⟨fun c => head_of_cut, ?_⟩
  intro c hc
  have hne : (t.dropWhile isBlank).rdropWhile isBlank ≠ [] := by
    intro hnil
    rw [hnil] at hc
    cases hc
  rw [List.getLast?_eq_some_getLast hne] at hc
  obtain rfl := Option.some.inj hc
  simpa using List.rdropWhile_last_not isBlank _ hne

/-- **Trimming leaves exactly the trimmed texts as they are.** -/
theorem trim_eq_self_iff {t : Text} : t.trim = t ↔ Trimmed t :=
  ⟨fun h => h ▸ trimmed_trim t, Trimmed.trim⟩

instance (t : Text) : Decidable (Trimmed t) :=
  decidable_of_iff (t.trim = t) trim_eq_self_iff

theorem trimmed_of_not_isBlank {t : Text} (h : ∀ c ∈ t, isBlank c = false) : Trimmed t :=
  ⟨fun _ hc => h _ (List.mem_of_head? hc), fun _ hc => h _ (List.mem_of_getLast? hc)⟩

theorem trim_append_blank {t b : Text} (hb : ∀ c ∈ b, isBlank c = true) :
    (t ++ b).trim = t.trim := by
  have hend : ∀ s : Text, (s ++ b).rdropWhile isBlank = s.rdropWhile isBlank := by
    intro s
    have hrev : ∀ c ∈ b.reverse, isBlank c = true := fun c hc => hb c (List.mem_reverse.mp hc)
    rw [List.rdropWhile, List.reverse_append, List.dropWhile_append_of_pos hrev, List.rdropWhile]
  rw [trim_eq, trim_eq, List.dropWhile_append]
  cases hleft : t.dropWhile isBlank with
  | nil => simp [List.dropWhile_eq_nil_iff.mpr hb]
  | cons c s => simpa using hend (c :: s)

theorem trim_dropWhile (t : Text) : Text.trim (t.dropWhile isBlank) = t.trim := by
  rw [trim_eq, List.dropWhile_idempotent, trim_eq]

theorem trim_rdropWhile (t : Text) : Text.trim (t.rdropWhile isBlank) = t.trim := by
  have hb : ∀ c ∈ t.rtakeWhile isBlank, isBlank c = true := fun c hc => List.mem_rtakeWhile_imp hc
  rw [← trim_append_blank (t := t.rdropWhile isBlank) hb, List.rdropWhile_append_rtakeWhile]

theorem trim_sublist (t : Text) : t.trim.Sublist t :=
  (List.rdropWhile_prefix isBlank _).sublist.trans (List.dropWhile_suffix isBlank).sublist

theorem mem_of_mem_trim {t : Text} {c : Char} (h : c ∈ t.trim) : c ∈ t :=
  (trim_sublist t).subset h

/-! ## Stripping -/

theorem strip_eq (c : Char) (t : Text) :
    strip c t = (t.dropWhile (· == c)).rdropWhile (· == c) := rfl

theorem strip_sublist (c : Char) (t : Text) : (strip c t).Sublist t :=
  (List.rdropWhile_prefix (· == c) _).sublist.trans (List.dropWhile_suffix (· == c)).sublist

theorem mem_of_mem_strip {t : Text} {c d : Char} (h : c ∈ t.strip d) : c ∈ t :=
  (strip_sublist d t).subset h

/-- What is stripped already stays as it is. -/
theorem strip_strip (c : Char) (t : Text) : strip c (strip c t) = strip c t := by
  have hleft : (strip c t).dropWhile (· == c) = strip c t := by
    cases h : strip c t with
    | nil => rfl
    | cons d u =>
        have hd : ((strip c t).head? = some d) := by rw [h]; rfl
        rw [List.dropWhile_cons_of_neg (by simpa using head_of_cut hd)]
  rw [strip_eq c (strip c t), hleft, strip_eq, List.rdropWhile_idempotent]

/-- Text that is stripped already is left as it is by trimming and stripping if it is trimmed. -/
theorem strip_trim_eq_self_iff {c : Char} {t : Text} (hstrip : strip c t = t) :
    strip c t.trim = t ↔ Trimmed t := by
  constructor
  · intro h
    have hle : t.Sublist t.trim := by
      have hsub := strip_sublist c t.trim
      rwa [h] at hsub
    exact trim_eq_self_iff.mp ((trim_sublist t).antisymm hle)
  · intro h
    rw [h.trim, hstrip]

/-! ## Blanks at the ends -/

theorem allBlank_iff {t : Text} : t.allBlank = true ↔ ∀ c ∈ t, isBlank c = true :=
  List.all_eq_true

theorem not_mem_of_allBlank {t : Text} {c : Char} (ht : t.allBlank = true)
    (hc : isBlank c = false) : c ∉ t := by
  intro hmem
  simp [allBlank_iff.mp ht c hmem] at hc

theorem rdropWhile_append_cons {p : Char → Bool} {c : Char} (hc : p c = false) (a t : Text) :
    (a ++ c :: t).rdropWhile p = a ++ c :: t.rdropWhile p := by
  have hreverse : (a ++ c :: t).reverse = t.reverse ++ c :: a.reverse := by simp
  rw [List.rdropWhile, hreverse, List.dropWhile_append, List.rdropWhile]
  cases t.reverse.dropWhile p with
  | nil => simp [hc]
  | cons d s => simp

/-- Trimming stops on both sides of a character that is no blank. -/
theorem trim_around {c : Char} (hc : isBlank c = false) (a t : Text) :
    Text.trim (a ++ c :: t) = a.dropWhile isBlank ++ c :: t.rdropWhile isBlank := by
  have hleft : (a ++ c :: t).dropWhile isBlank = a.dropWhile isBlank ++ c :: t := by
    rw [List.dropWhile_append]
    cases a.dropWhile isBlank with
    | nil => simp [hc]
    | cons d s => simp
  rw [trim_eq, hleft, rdropWhile_append_cons hc]

theorem trim_append_cons {a t : Text} {c : Char} (ha : Trimmed a) (hc : isBlank c = false) :
    Text.trim (a ++ c :: t) = a ++ c :: t.rdropWhile isBlank := by
  have hleft : a.dropWhile isBlank = a := by
    cases a with
    | nil => rfl
    | cons d a => simp [ha.head d rfl]
  rw [trim_around hc, hleft]

theorem trim_blank_append {t b : Text} (hb : ∀ c ∈ b, isBlank c = true) :
    (b ++ t).trim = t.trim := by
  rw [trim_eq, List.dropWhile_append_of_pos hb, trim_eq]

theorem trim_cons_blank {c : Char} (hc : isBlank c = true) (t : Text) :
    Text.trim (c :: t) = t.trim :=
  trim_blank_append (b := [c]) (by simpa using hc)

theorem trim_eq_nil_iff {t : Text} : t.trim = [] ↔ ∀ c ∈ t, isBlank c = true := by
  constructor
  · intro h
    rw [trim_eq, List.rdropWhile_eq_nil_iff] at h
    refine List.dropWhile_eq_nil_iff.mp ?_
    cases ht : t.dropWhile isBlank with
    | nil => rfl
    | cons c s =>
        have hhead := List.head?_dropWhile_not isBlank t
        rw [ht] at h hhead
        simp [h c List.mem_cons_self] at hhead
  · intro h
    exact trim_append_blank (t := []) h

/-- Trimming cuts off nothing but blanks. -/
theorem exists_blanks_trim (t : Text) :
    ∃ left right : Text, (∀ c ∈ left, isBlank c = true) ∧ (∀ c ∈ right, isBlank c = true) ∧
      t = left ++ t.trim ++ right := by
  refine ⟨t.takeWhile isBlank, (t.dropWhile isBlank).rtakeWhile isBlank,
    fun c => List.mem_takeWhile_imp, fun c => List.mem_rtakeWhile_imp, ?_⟩
  rw [trim_eq, List.append_assoc, List.rdropWhile_append_rtakeWhile,
    List.takeWhile_append_dropWhile]

/-! ## Splitting -/

section Pieces

variable {sep : Char} {a : Text}

theorem pieces_cons_self (sep : Char) (t : Text) :
    pieces sep (sep :: t) = ([], (pieces sep t).1 :: (pieces sep t).2) := by
  simp [pieces]

theorem pieces_cons_of_ne {c : Char} (hc : c ≠ sep) (t : Text) :
    pieces sep (c :: t) = (c :: (pieces sep t).1, (pieces sep t).2) := by
  simp [pieces, hc]

/-- A text is known by its pieces. -/
theorem pieces_injective (sep : Char) : Function.Injective (pieces sep) := by
  intro s t h
  rw [← join_splitAll sep s, splitAll, h, ← splitAll, join_splitAll]

/-- What holds no separator belongs to the piece behind it. -/
theorem pieces_append_of_not_mem (ha : sep ∉ a) (t : Text) :
    pieces sep (a ++ t) = (a ++ (pieces sep t).1, (pieces sep t).2) := by
  induction a with
  | nil => rfl
  | cons c a ih =>
      rw [List.mem_cons, not_or] at ha
      rw [List.cons_append, pieces_cons_of_ne (Ne.symm ha.1), ih ha.2]
      rfl

theorem pieces_of_not_mem (ha : sep ∉ a) : pieces sep a = (a, []) := by
  simpa [pieces] using pieces_append_of_not_mem ha []

theorem pieces_append_cons (ha : sep ∉ a) (t : Text) :
    pieces sep (a ++ sep :: t) = (a, (pieces sep t).1 :: (pieces sep t).2) := by
  rw [pieces_append_of_not_mem ha, pieces_cons_self, List.append_nil]

/-- **Splitting undoes writing the separator before each piece.** -/
theorem pieces_flatten (ha : sep ∉ a) {ps : List Text} (hps : ∀ p ∈ ps, sep ∉ p) :
    pieces sep (a ++ (ps.map (sep :: ·)).flatten) = (a, ps) := by
  induction ps generalizing a with
  | nil => simpa using pieces_of_not_mem ha
  | cons p ps ih =>
      have hp := hps p List.mem_cons_self
      have hrest := ih hp fun q hq => hps q (List.mem_cons_of_mem p hq)
      rw [List.map_cons, List.flatten_cons, List.cons_append, pieces_append_cons ha, hrest]

theorem not_mem_pieces (sep : Char) (t : Text) :
    sep ∉ (pieces sep t).1 ∧ ∀ p ∈ (pieces sep t).2, sep ∉ p := by
  induction t with
  | nil => simp [pieces]
  | cons c t ih =>
      by_cases hc : c = sep
      · simpa [pieces, hc] using ih
      · simpa [pieces, hc, Ne.symm hc] using ih

/-- **Splitting at a separator splits what stands before it and what stands after it.** -/
theorem splitAll_append_cons (sep : Char) (a b : Text) :
    splitAll sep (a ++ sep :: b) = splitAll sep a ++ splitAll sep b := by
  unfold splitAll
  induction a with
  | nil => simp [pieces]
  | cons c a ih =>
      obtain ⟨hfirst, hrest⟩ := List.cons.inj ih
      by_cases hc : c = sep
      · simp [pieces, hc, hfirst, hrest]
      · simp [pieces, hc, hfirst, hrest]

theorem splitAll_of_not_mem (ha : sep ∉ a) : splitAll sep a = [a] := by
  rw [splitAll, pieces_of_not_mem ha]

theorem exists_last_separator {t : Text} (h : sep ∈ t) : ∃ a b, t = a ++ sep :: b ∧ sep ∉ b := by
  obtain ⟨b, a, hreverse, hb⟩ := List.eq_append_cons_of_mem (List.mem_reverse.mpr h)
  refine ⟨a.reverse, b.reverse, ?_, by simpa using hb⟩
  rw [← List.reverse_reverse t, hreverse]
  simp

section Blanks

variable {b : Text}

/-- Blanks before a text go with its first piece. -/
theorem map_trim_splitAll_blank_append (hsep : isBlank sep = false)
    (hb : ∀ c ∈ b, isBlank c = true) (t : Text) :
    (splitAll sep (b ++ t)).map trim = (splitAll sep t).map trim := by
  have hmem : sep ∉ b := by
    intro h
    simp [hb sep h] at hsep
  rw [splitAll, pieces_append_of_not_mem hmem, List.map_cons, trim_blank_append hb, splitAll,
    List.map_cons]

/-- Blanks behind a text go with its last piece. -/
theorem map_trim_splitAll_append_blank (hsep : isBlank sep = false)
    (hb : ∀ c ∈ b, isBlank c = true) (t : Text) :
    (splitAll sep (t ++ b)).map trim = (splitAll sep t).map trim := by
  have hmem : sep ∉ b := by
    intro h
    simp [hb sep h] at hsep
  have hlast : ∀ s, sep ∉ s → (splitAll sep (s ++ b)).map trim = (splitAll sep s).map trim := by
    intro s hs
    rw [splitAll_of_not_mem (by simp [hs, hmem]), splitAll_of_not_mem hs]
    simp [trim_append_blank hb]
  by_cases ht : sep ∈ t
  · obtain ⟨a, s, rfl, hs⟩ := exists_last_separator ht
    rw [List.append_assoc, List.cons_append, splitAll_append_cons, splitAll_append_cons,
      List.map_append, hlast s hs, List.map_append]
  · exact hlast t ht

end Blanks

theorem length_splitAll (sep : Char) (t : Text) : (splitAll sep t).length = t.count sep + 1 := by
  unfold splitAll
  induction t with
  | nil => rfl
  | cons c t ih =>
      by_cases hc : c = sep
      · simpa [pieces, hc] using ih
      · simpa [pieces, hc] using ih

theorem splitFirst_append_cons (ha : sep ∉ a) (t : Text) :
    splitFirst sep (a ++ sep :: t) = some (a, t) := by
  induction a with
  | nil => simp [splitFirst]
  | cons c a ih =>
      rw [List.mem_cons, not_or] at ha
      simp [splitFirst, ih ha.2, Ne.symm ha.1]

theorem eq_append_of_splitFirst {t r : Text} (h : splitFirst sep t = some (a, r)) :
    t = a ++ sep :: r := by
  induction t generalizing a with
  | nil => cases h
  | cons c t ih =>
      by_cases hc : c = sep
      · rw [splitFirst, if_pos hc] at h
        cases h
        simp [hc]
      · rw [splitFirst, if_neg hc] at h
        obtain ⟨⟨a', r'⟩, hsplit, heq⟩ := Option.map_eq_some_iff.mp h
        cases heq
        rw [ih hsplit, List.cons_append]

theorem splitFirst_of_not_mem {t : Text} (h : sep ∉ t) : splitFirst sep t = none := by
  cases hsplit : splitFirst sep t with
  | none => rfl
  | some p =>
      rw [eq_append_of_splitFirst hsplit] at h
      simp at h

end Pieces

/-! ## Separators in known places -/

section Separated

variable {sep : Char} {a b c a' b' c' : Text}

theorem append_cons_inj_first (ha : sep ∉ a) (ha' : sep ∉ a') (h : a ++ sep :: b = a' ++ sep :: b') :
    a = a' ∧ b = b' := by
  have hsplit := splitFirst_append_cons ha b
  rw [h, splitFirst_append_cons ha'] at hsplit
  cases hsplit
  exact ⟨rfl, rfl⟩

theorem append_cons_inj_last (hb : sep ∉ b) (hb' : sep ∉ b') (h : a ++ sep :: b = a' ++ sep :: b') :
    a = a' ∧ b = b' := by
  have hreverse : b.reverse ++ sep :: a.reverse = b'.reverse ++ sep :: a'.reverse := by
    simpa using congrArg List.reverse h
  obtain ⟨htail, hhead⟩ := append_cons_inj_first (by simpa using hb) (by simpa using hb') hreverse
  exact ⟨List.reverse_injective hhead, List.reverse_injective htail⟩

/-- A text without the separator goes before the first one. -/
theorem append_eq_append_cons (ha : sep ∉ a) (h : a ++ b = a' ++ sep :: b') :
    ∃ rest, a' = a ++ rest ∧ b = rest ++ sep :: b' := by
  rcases List.append_eq_append_iff.mp h with ⟨rest, rfl, hb⟩ | ⟨rest, rfl, hb⟩
  · exact ⟨rest, rfl, hb⟩
  · cases rest with
    | nil => exact ⟨[], by simp, hb.symm⟩
    | cons d rest =>
        obtain ⟨rfl, -⟩ := List.cons.inj hb
        exact absurd (by simp) ha

/-- A text with two separators is cut at them in only one way. -/
theorem append_cons_inj_twice (ha : sep ∉ a) (hb : sep ∉ b) (hc : sep ∉ c)
    (h : a ++ sep :: (b ++ sep :: c) = a' ++ sep :: (b' ++ sep :: c')) :
    a = a' ∧ b = b' ∧ c = c' := by
  have hcount := congrArg (List.count sep) h
  simp only [List.count_append, List.count_cons_self, List.count_eq_zero_of_not_mem ha,
    List.count_eq_zero_of_not_mem hb, List.count_eq_zero_of_not_mem hc] at hcount
  have ha' : sep ∉ a' := List.count_eq_zero.mp (by omega)
  have hb' : sep ∉ b' := List.count_eq_zero.mp (by omega)
  obtain ⟨rfl, hrest⟩ := append_cons_inj_first ha ha' h
  exact ⟨rfl, append_cons_inj_first hb hb' hrest⟩

/-- What begins with a separator begins at the first one or behind it. -/
theorem prefix_or_infix_of_cons_infix (ha : sep ∉ a) (h : sep :: c <:+: a ++ sep :: b) :
    c <+: b ∨ sep :: c <:+: b := by
  induction a with
  | nil =>
      rcases List.infix_cons_iff.mp h with hprefix | hinfix
      · exact Or.inl (List.cons_prefix_cons.mp hprefix).2
      · exact Or.inr hinfix
  | cons x a ih =>
      rw [List.mem_cons, not_or] at ha
      rcases List.infix_cons_iff.mp h with hprefix | hinfix
      · exact absurd (List.cons_prefix_cons.mp hprefix).1 ha.1
      · exact ih ha.2 hinfix

theorem not_cons_infix (hb : sep ∉ b) : ¬ sep :: c <:+: b :=
  fun h => hb (h.subset List.mem_cons_self)

end Separated

end Text

end ContentNegotiation
