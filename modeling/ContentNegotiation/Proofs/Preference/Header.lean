import ContentNegotiation.Preference.Header
import ContentNegotiation.Proofs.Axis.LanguageTag
import ContentNegotiation.Proofs.Axis.Name
import ContentNegotiation.Proofs.Preference.Quality
import ContentNegotiation.Proofs.Traversal

/-!
# Printed preference lists

Languages, character sets and content codings are written as single tokens, and a token holds none
of the characters at which a field is cut.

* `TagAxis` — the axes on which every value that can be read is such a token, and is read back.
* `AcceptList.elements_join` — a field is cut into the elements from which it was joined.
* `AcceptList.readEntry_print` — an entry is read back from its printed form.

Principal result: `AcceptList.tags_read_print` — whatever list a field states on these axes, its
printed form states the same one.
-/

namespace ContentNegotiation

/-- An axis whose values are written as single tokens. What was read once is read back. -/
class TagAxis (α : Type) [AxisValue α] : Prop where
  isToken : ∀ {t : Text} {v : α}, AxisValue.read t = some v → (AxisValue.print v).isToken = true
  read_print : ∀ {t : Text} {v : α}, AxisValue.read t = some v →
    AxisValue.read (AxisValue.print v) = some v

instance : TagAxis LanguageTag where
  isToken := by
    intro t l h
    exact LanguageTag.isToken_print (LanguageTag.read_eq_some_iff.mp h).2
  read_print := by
    intro t l h
    obtain ⟨rfl, hwell⟩ := LanguageTag.read_eq_some_iff.mp h
    exact (LanguageTag.read_print hwell).trans (congrArg some (LanguageTag.normalize_ofTag t))

/-- An axis of names is such an axis, whatever its table of other spellings. -/
theorem TagAxis.of_names {α : Type} [AxisValue α] {aliases : List (Text × Text)}
    {ofName : Text → α} (h : NameAxis α aliases ofName) : TagAxis α := by
  have hmade : ∀ {t v}, AxisValue.read t = some v →
      (Text.trim t).isToken = true ∧ ofName t = v := by
    intro t v hv
    simpa [h.read_eq] using hv
  constructor
  · intro t v hv
    obtain ⟨htoken, rfl⟩ := hmade hv
    rw [h.print_ofName, isToken_canonicalName h.table, htoken]
  · intro t v hv
    obtain ⟨htoken, rfl⟩ := hmade hv
    rw [h.read_print_ofName, if_pos htoken]

instance : TagAxis Charset := .of_names Charset.nameAxis

instance : TagAxis ContentCoding := .of_names ContentCoding.nameAxis

namespace AcceptList

/-! ## Elements -/

/-- A text that is one element of a field as it stands. -/
structure IsElement (t : Text) : Prop where
  ne_nil : t ≠ []
  trimmed : Text.Trimmed t
  comma : ',' ∉ t

/-- **A comma separates the elements before it from those after it.** -/
theorem elements_append (a b : Text) : elements (a ++ ',' :: b) = elements a ++ elements b := by
  simp [elements, Text.splitAll_append_cons]

theorem elements_cons_blank {c : Char} (hc : isBlank c = true) (hne : c ≠ ',') (t : Text) :
    elements (c :: t) = elements t := by
  simp [elements, Text.splitAll, Text.pieces, hne, Text.trim_cons_blank hc]

/-- A text without commas is one element at most. -/
theorem elements_of_not_mem {t : Text} (h : ',' ∉ t) :
    elements t = if t.trim = [] then [] else [t.trim] := by
  rw [elements, Text.splitAll_of_not_mem h]
  by_cases htrim : t.trim = [] <;> simp [htrim]

theorem IsElement.elements_eq {t : Text} (h : IsElement t) : elements t = [t] := by
  rw [elements_of_not_mem h.comma, h.trimmed.trim, if_neg h.ne_nil]

/-- **A field is cut into the elements from which it was joined.** -/
theorem elements_join {ts : List Text} (h : ∀ t ∈ ts, IsElement t) :
    elements (Text.join ", ".toList ts) = ts := by
  induction ts with
  | nil => rfl
  | cons t ts ih =>
      have ht := (h t List.mem_cons_self).elements_eq
      have hts := ih fun u hu => h u (List.mem_cons_of_mem t hu)
      cases ts with
      | nil => exact ht
      | cons u us =>
          have hjoin : Text.join ", ".toList (t :: u :: us) =
              t ++ ',' :: ' ' :: Text.join ", ".toList (u :: us) := by simp
          rw [hjoin, elements_append, elements_cons_blank (by decide) (by decide), ht, hts]
          rfl

/-! ## Entries -/

/-- The parameter that states a quality. -/
def qualityParameter (q : Quality) : Text :=
  "q=".toList ++ q.print

section QualityParameter

theorem mem_qualityParameter {q : Quality} {c : Char} (hc : c ∈ qualityParameter q) :
    isTokenChar c = true ∨ c = '=' := by
  rcases List.mem_append.mp hc with hc | hc
  · have hname : c = 'q' ∨ c = '=' := by simpa using hc
    rcases hname with rfl | rfl <;> decide
  · exact .inl ((Text.isToken_iff.mp (Binary.isToken_print q.value)).2 c hc)

variable (q : Quality)

theorem semicolon_not_mem_qualityParameter : ';' ∉ qualityParameter q := by
  intro hc
  exact absurd (mem_qualityParameter hc) (by decide)

theorem trim_qualityParameter : (qualityParameter q).trim = qualityParameter q := by
  apply (Text.trimmed_of_not_isBlank _).trim
  intro c hc
  rcases mem_qualityParameter hc with hc | rfl
  · exact not_isBlank_of_isTokenChar hc
  · decide

theorem weightOf_qualityParameter : weightOf (qualityParameter q) = some q.print := by
  have hsplit : Text.splitFirst '=' (qualityParameter q) = some (['q'], q.print) :=
    Text.splitFirst_append_cons (a := ['q']) (by decide) q.print
  have hname : Text.lower (Text.trim ['q']) = ['q'] := by decide
  have hweight : Text.trim q.print = q.print :=
    (Text.trimmed_of_isToken (Binary.isToken_print q.value)).trim
  simp only [weightOf, hsplit, hname, if_pos, hweight]

theorem readWeight_print : readWeight (some q.print) = .ok q := by
  simp [readWeight, q.read_print, readQuality, q.ofSingle_value]

end QualityParameter

variable {α : Type} [AxisValue α]

theorem readValue_eq_ok_iff {t : Text} {v : α} :
    readValue t = .ok v ↔ AxisValue.read t = some v := by
  unfold readValue
  cases AxisValue.read (α := α) t <;> simp

theorem print_of_isHighest {e : Entry α} (h : e.quality.isHighest = true) :
    e.print = AxisValue.print e.value := by
  simp [Entry.print, h]

theorem print_of_not_isHighest {e : Entry α} (h : e.quality.isHighest = false) :
    e.print = AxisValue.print e.value ++ ';' :: qualityParameter e.quality := by
  simp [Entry.print, h, qualityParameter]

section Print

variable {e : Entry α}

theorem mem_print {c : Char} (htoken : (AxisValue.print e.value).isToken = true)
    (hc : c ∈ e.print) : isTokenChar c = true ∨ c = ';' ∨ c = '=' := by
  have hvalue := (Text.isToken_iff.mp htoken).2 c
  cases hhighest : e.quality.isHighest with
  | true =>
      rw [print_of_isHighest hhighest] at hc
      exact .inl (hvalue hc)
  | false =>
      rw [print_of_not_isHighest hhighest, List.mem_append, List.mem_cons] at hc
      rcases hc with hc | rfl | hc
      · exact .inl (hvalue hc)
      · exact .inr (.inl rfl)
      · exact (mem_qualityParameter hc).imp_right .inr

theorem isElement_print (htoken : (AxisValue.print e.value).isToken = true) :
    IsElement e.print := by
  constructor
  · intro hnil
    exact (Text.isToken_iff.mp htoken).1 (List.append_eq_nil_iff.mp hnil).1
  · apply Text.trimmed_of_not_isBlank
    intro c hc
    rcases mem_print htoken hc with hc | rfl | rfl
    · exact not_isBlank_of_isTokenChar hc
    · decide
    · decide
  · intro hc
    exact absurd (mem_print htoken hc) (by decide)

/-- **An entry is read back from its printed form.** -/
theorem readEntry_print (htoken : (AxisValue.print e.value).isToken = true)
    (hread : AxisValue.read (AxisValue.print e.value) = some e.value) :
    readEntry e.print = .ok e := by
  obtain ⟨v, q⟩ := e
  have hsemicolon : ';' ∉ AxisValue.print v := Text.not_mem_of_isToken htoken (by decide)
  have htrim : (AxisValue.print v).trim = AxisValue.print v :=
    (Text.trimmed_of_isToken htoken).trim
  have hvalue : readValue (AxisValue.print v) = .ok v := readValue_eq_ok_iff.mpr hread
  cases hhighest : q.isHighest with
  | true =>
      -- no weight is written, and none stands for the highest quality
      obtain rfl := Quality.eq_highest_of_isHighest hhighest
      rw [print_of_isHighest hhighest, readEntry, Text.pieces_of_not_mem hsemicolon]
      simp only [List.map_nil, splitAtWeight, readWeight, htrim, Text.join_singleton, hvalue]
      rfl
  | false =>
      have hpieces := Text.pieces_append_cons hsemicolon (qualityParameter q)
      rw [Text.pieces_of_not_mem (semicolon_not_mem_qualityParameter q)] at hpieces
      rw [print_of_not_isHighest hhighest, readEntry, hpieces]
      simp only [List.map_cons, List.map_nil, trim_qualityParameter, splitAtWeight,
        weightOf_qualityParameter, readWeight_print, htrim, Text.join_singleton, hvalue]
      rfl

end Print

/-! ## Lists -/

/-- The value of an entry that was read was itself read. -/
theorem exists_read_of_readEntry {element : Text} {e : Entry α}
    (h : readEntry element = .ok e) : ∃ t, AxisValue.read t = some e.value := by
  obtain ⟨quality, -, h⟩ := bind_eq_ok_iff.mp h
  obtain ⟨value, hvalue, h⟩ := bind_eq_ok_iff.mp h
  cases h
  exact ⟨_, readValue_eq_ok_iff.mp hvalue⟩

/-- **A list that a field states is read back from its printed form.** -/
theorem read_print [TagAxis α] {field : Text} {l : AcceptList α} (h : read field = .ok l) :
    read l.print = .ok l := by
  have hstated : ∀ e ∈ l, ∃ t, AxisValue.read t = some e.value := by
    intro e he
    obtain ⟨element, -, helement⟩ := exists_of_mapM_eq_ok h he
    exact exists_read_of_readEntry helement
  have helements : elements l.print = l.map Entry.print := by
    apply elements_join
    intro t ht
    obtain ⟨e, he, rfl⟩ := List.mem_map.mp ht
    obtain ⟨t, hread⟩ := hstated e he
    exact isElement_print (TagAxis.isToken hread)
  have hentries : ∀ e ∈ l, readEntry e.print = .ok e := by
    intro e he
    obtain ⟨t, hread⟩ := hstated e he
    exact readEntry_print (TagAxis.isToken hread) (TagAxis.read_print hread)
  rw [read, helements, mapM_eq_ok_iff, List.forall₂_map_left_iff, List.forall₂_same]
  exact hentries

/-- **Languages, character sets and content codings survive printing**: a list that a field states
on one of these axes is stated again by its printed form, with the same values and qualities in the
same order. -/
theorem tags_read_print :
    (∀ field (l : AcceptList LanguageTag), read field = .ok l → read l.print = .ok l) ∧
    (∀ field (l : AcceptList Charset), read field = .ok l → read l.print = .ok l) ∧
    ∀ field (l : AcceptList ContentCoding), read field = .ok l → read l.print = .ok l :=
  ⟨fun _ _ => read_print, fun _ _ => read_print, fun _ _ => read_print⟩

/-- English at half the quality, and any other language at the negative zero. -/
def statedLanguages : AcceptList LanguageTag :=
  [⟨.ofTag "en-US".toList, ⟨.number false ⟨0x3F000000, by decide⟩, by decide, by decide⟩⟩,
    ⟨.all, ⟨.number true .zero, by decide, by decide⟩⟩]

/-- Two character sets of the highest quality. -/
def statedCharsets : AcceptList Charset :=
  [⟨.utf8, .highest⟩, ⟨.latin1, .highest⟩]

/-- A content coding that is not acceptable, and one that is. -/
def statedCodings : AcceptList ContentCoding :=
  [⟨.gzip, .lowest⟩, ⟨.brotli, .highest⟩]

theorem stated_read_print :
    (read "EN-us ;q=0.5;x=y, , *;Q=-0".toList = .ok statedLanguages ∧
      statedLanguages.print = "en-US;q=0.5, *;q=-0".toList ∧
      read statedLanguages.print = .ok statedLanguages) ∧
    (read "UTF8, Latin1;q=1.0".toList = .ok statedCharsets ∧
      statedCharsets.print = "utf-8, iso-8859-1".toList ∧
      read statedCharsets.print = .ok statedCharsets) ∧
    read "X-GZIP;q=0,br".toList = .ok statedCodings ∧
      statedCodings.print = "gzip;q=0, br".toList ∧
      read statedCodings.print = .ok statedCodings := by
  have hlanguages : read "EN-us ;q=0.5;x=y, , *;Q=-0".toList = .ok statedLanguages := by
    decide +kernel
  have hcharsets : read "UTF8, Latin1;q=1.0".toList = .ok statedCharsets := by decide +kernel
  have hcodings : read "X-GZIP;q=0,br".toList = .ok statedCodings := by decide +kernel
  obtain ⟨hlanguage, hcharset, hcoding⟩ := tags_read_print
  exact ⟨⟨hlanguages, by decide +kernel, hlanguage _ _ hlanguages⟩,
    ⟨hcharsets, by decide +kernel, hcharset _ _ hcharsets⟩,
    hcodings, by decide +kernel, hcoding _ _ hcodings⟩

end AcceptList

end ContentNegotiation
