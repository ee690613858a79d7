import ContentNegotiation.Axis.MediaType
import ContentNegotiation.Proofs.Text.Case
import ContentNegotiation.Proofs.Traversal

/-!
# Printed media types

Media types and their parameters are made from any texts. The written form can be read back if the
parts obey the grammar.

* `MediaType.Grammatical` — what the grammar demands of the parts.
* `MediaType.Made` — the media types that are read, or made from parts that obey the grammar.
* `MediaType.Made.grammatical` — these are grammatical, in whichever way they were made.
* `MediaType.Grammatical.read_print` — a grammatical media type is read back from its printed form,
  with types and names in lower case and each value as it would be read.
* `MediaType.Settled` — what reading leaves of the parts, beyond the grammar.
* `MediaType.read_print_of_read` — what is read is printed and read again, apart from the blanks at
  the ends of a value.
-/

namespace ContentNegotiation

namespace MediaType

variable {m : MediaType} {main sub name value t : Text} {p : Text × Text}

theorem lower_eq_wildcardText_iff : Text.lower t = wildcardText ↔ t = wildcardText := by
  have hstar : ∀ c : Char, c.toLower = '*' ↔ c = '*' := fun c => toLower_eq_iff (by decide)
  simp [Text.lower, wildcardText, List.map_eq_cons_iff, hstar]

/-! ## Grammatical media types -/

/-- Types and parameter names are tokens, only a wildcard follows a wildcard, and no value holds the
separator of parameters. -/
structure Grammatical (m : MediaType) : Prop where
  main : m.main.isToken = true
  sub : m.sub.isToken = true
  range : m.main = wildcardText → m.sub = wildcardText
  names : ∀ p ∈ m.parameters, p.1.isToken = true
  values : ∀ p ∈ m.parameters, ';' ∉ p.2

theorem grammatical_ofTypes (hmain : main.isToken = true) (hsub : sub.isToken = true)
    (hrange : main = wildcardText → sub = wildcardText) : (ofTypes main sub).Grammatical where
  main := by rwa [ofTypes, Text.isToken_lower]
  sub := by rwa [ofTypes, Text.isToken_lower]
  range := by rwa [ofTypes, lower_eq_wildcardText_iff, lower_eq_wildcardText_iff]
  names := by simp [ofTypes]
  values := by simp [ofTypes]

theorem Grammatical.withParameter (h : m.Grammatical) (hname : name.isToken = true)
    (hvalue : ';' ∉ value) : (m.withParameter name value).Grammatical where
  main := h.main
  sub := h.sub
  range := h.range
  names := by
    intro p hp
    rcases List.mem_append.mp hp with hp | hp
    · exact h.names p hp
    · rw [List.mem_singleton.mp hp, Text.isToken_lower, hname]
  values := by
    intro p hp
    rcases List.mem_append.mp hp with hp | hp
    · exact h.values p hp
    · rwa [List.mem_singleton.mp hp]

/-! ## What is read is grammatical -/

theorem exists_of_readTypes {types : Text × Text} (h : readTypes t = some types) :
    ∃ main sub : Text, main.isToken = true ∧ sub.isToken = true ∧
      (main = wildcardText → sub = wildcardText) ∧ types = (Text.lower main, Text.lower sub) := by
  simp only [readTypes, Option.bind_eq_bind, Option.bind_eq_some_iff] at h
  obtain ⟨⟨main, sub⟩, -, h⟩ := h
  dsimp only at h
  split at h
  · rename_i hvalid
    simp only [Bool.and_eq_true, Bool.or_eq_true, bne_iff_ne, beq_iff_eq] at hvalid
    obtain ⟨⟨hmain, hsub⟩, hrange⟩ := hvalid
    refine ⟨Text.trim main, Text.trim sub, hmain, hsub, ?_, (Option.some.inj h).symm⟩
    intro hstar
    exact hrange.resolve_left fun hne => hne hstar
  · cases h

theorem of_readParameter (h : readParameter t = some p) :
    p.1.isToken = true ∧ ∀ c ∈ p.2, c ∈ t := by
  simp only [readParameter, Option.bind_eq_bind, Option.bind_eq_some_iff] at h
  obtain ⟨⟨name, value⟩, hsplit, h⟩ := h
  dsimp only at h
  split at h
  · rename_i hname
    cases h
    refine ⟨by rwa [Text.isToken_lower], ?_⟩
    intro c hc
    rw [Text.eq_append_of_splitFirst hsplit]
    have hvalue : c ∈ value := Text.mem_of_mem_trim (Text.mem_of_mem_strip hc)
    simp [hvalue]
  · cases h

theorem exists_of_readParameter (h : readParameter t = some p) :
    ∃ name value, p = (Text.lower name, Text.strip '"' value) := by
  simp only [readParameter, Option.bind_eq_bind, Option.bind_eq_some_iff] at h
  obtain ⟨⟨name, value⟩, -, h⟩ := h
  dsimp only at h
  split at h
  · exact ⟨_, _, (Option.some.inj h).symm⟩
  · cases h

/-- A parameter is read from a piece between two separators. -/
theorem exists_piece_of_mem {parameters : List (Text × Text)}
    (h : (((Text.pieces ';' t).2.map Text.trim).filter (!·.isEmpty)).mapM readParameter =
      some parameters) (hp : p ∈ parameters) :
    ∃ piece, ';' ∉ piece ∧ readParameter piece = some p := by
  obtain ⟨piece, hpiece, hread⟩ := exists_of_forall₂ (mapM_eq_some_iff.mp h) hp
  obtain ⟨raw, hraw, rfl⟩ := List.mem_map.mp (List.mem_of_mem_filter hpiece)
  refine ⟨Text.trim raw, ?_, hread⟩
  intro hmem
  exact (Text.not_mem_pieces ';' t).2 raw hraw (Text.mem_of_mem_trim hmem)

theorem grammatical_of_read (h : read t = some m) : m.Grammatical := by
  simp only [read, Option.bind_eq_bind, Option.bind_eq_some_iff] at h
  obtain ⟨types, htypes, parameters, hparameters, h⟩ := h
  cases h
  obtain ⟨main, sub, hmain, hsub, hrange, rfl⟩ := exists_of_readTypes htypes
  have htyped := grammatical_ofTypes hmain hsub hrange
  refine ⟨htyped.main, htyped.sub, htyped.range, ?_, ?_⟩
  · intro p hp
    obtain ⟨piece, -, hread⟩ := exists_piece_of_mem hparameters hp
    exact (of_readParameter hread).1
  · intro p hp hmem
    obtain ⟨piece, hpiece, hread⟩ := exists_piece_of_mem hparameters hp
    exact hpiece ((of_readParameter hread).2 _ hmem)

/-- Read, or made from tokens and from values without the separator. -/
inductive Made : MediaType → Prop
  | read {t : Text} {m : MediaType} (h : read t = some m) : Made m
  | ofTypes {main sub : Text} (hmain : main.isToken = true) (hsub : sub.isToken = true)
      (hrange : main = wildcardText → sub = wildcardText) : Made (ofTypes main sub)
  | withParameter {m : MediaType} {name value : Text} (h : Made m) (hname : name.isToken = true)
      (hvalue : ';' ∉ value) : Made (m.withParameter name value)

theorem Made.grammatical (h : m.Made) : m.Grammatical := by
  induction h with
  | read h => exact grammatical_of_read h
  | ofTypes hmain hsub hrange => exact grammatical_ofTypes hmain hsub hrange
  | withParameter _ hname hvalue ih => exact ih.withParameter hname hvalue

/-! ## What is grammatical is read back -/

/-- The parameter as it is read. -/
def normalizeParameter (p : Text × Text) : Text × Text :=
  (Text.lower p.1, Text.strip '"' (Text.trim p.2))

/-- What stands between the two separators around a printed parameter. -/
def parameterText (p : Text × Text) : Text :=
  ' ' :: p.1 ++ '=' :: p.2

theorem trim_parameterText (hname : p.1.isToken = true) :
    Text.trim (parameterText p) = p.1 ++ '=' :: p.2.rdropWhile isBlank := by
  rw [parameterText, List.cons_append, Text.trim_cons_blank (by decide),
    Text.trim_append_cons (Text.trimmed_of_isToken hname) (by decide)]

theorem readParameter_parameterText (hname : p.1.isToken = true) :
    readParameter (Text.trim (parameterText p)) = some (normalizeParameter p) := by
  have hequals : '=' ∉ p.1 := Text.not_mem_of_isToken hname (by decide)
  have htrim : p.1.trim = p.1 := (Text.trimmed_of_isToken hname).trim
  simp [readParameter, normalizeParameter, trim_parameterText hname,
    Text.splitFirst_append_cons hequals, htrim, hname, Text.trim_rdropWhile]

theorem Grammatical.readTypes (h : m.Grammatical) :
    readTypes (Text.trim (m.main ++ '/' :: m.sub)) =
      some (Text.lower m.main, Text.lower m.sub) := by
  have hslash : '/' ∉ m.main := Text.not_mem_of_isToken h.main (by decide)
  have htrimmed : Text.Trimmed (m.main ++ '/' :: m.sub) := by
    apply Text.trimmed_of_not_isBlank
    intro c hc
    rcases List.mem_append.mp hc with hc | hc
    · exact Text.not_isBlank_of_mem_token h.main hc
    · rcases List.mem_cons.mp hc with rfl | hc
      · decide
      · exact Text.not_isBlank_of_mem_token h.sub hc
  have hrange : m.main ≠ wildcardText ∨ m.sub = wildcardText := by
    by_cases hstar : m.main = wildcardText
    · exact .inr (h.range hstar)
    · exact .inl hstar
  simp [MediaType.readTypes, htrimmed.trim, Text.splitFirst_append_cons hslash, h.main, h.sub,
    (Text.trimmed_of_isToken h.main).trim, (Text.trimmed_of_isToken h.sub).trim, hrange]

theorem print_eq (m : MediaType) :
    m.print = (m.main ++ '/' :: m.sub) ++
      ((m.parameters.map parameterText).map (';' :: ·)).flatten := by
  have hparameter : printParameter = (';' :: ·) ∘ parameterText := by
    funext p
    simp [printParameter, parameterText]
  rw [print, hparameter, List.map_map]

/-- The separators of the printed form are those between types and parameters. -/
theorem Grammatical.pieces_print (h : m.Grammatical) :
    Text.pieces ';' m.print = (m.main ++ '/' :: m.sub, m.parameters.map parameterText) := by
  have hmain : ';' ∉ m.main := Text.not_mem_of_isToken h.main (by decide)
  have hsub : ';' ∉ m.sub := Text.not_mem_of_isToken h.sub (by decide)
  rw [print_eq]
  apply Text.pieces_flatten
  · simp [hmain, hsub]
  · intro t ht
    obtain ⟨p, hp, rfl⟩ := List.mem_map.mp ht
    have hname : ';' ∉ p.1 := Text.not_mem_of_isToken (h.names p hp) (by decide)
    simp [parameterText, hname, h.values p hp]

theorem Grammatical.readParameters (h : m.Grammatical) :
    (((m.parameters.map parameterText).map Text.trim).filter (!·.isEmpty)).mapM readParameter =
      some (m.parameters.map normalizeParameter) := by
  -- no printed parameter is blank, so none is skipped
  have hkept : ∀ t ∈ (m.parameters.map parameterText).map Text.trim, (!t.isEmpty) = true := by
    simp only [List.map_map, List.mem_map]
    rintro - ⟨p, hp, rfl⟩
    simp [trim_parameterText (h.names p hp)]
  rw [List.filter_eq_self.mpr hkept, mapM_eq_some_iff, List.map_map, List.forall₂_map_left_iff,
    List.forall₂_map_right_iff, List.forall₂_same]
  intro p hp
  exact readParameter_parameterText (h.names p hp)

/-- **A grammatical media type is read back from its printed form.** -/
theorem Grammatical.read_print (h : m.Grammatical) :
    read m.print =
      some ⟨Text.lower m.main, Text.lower m.sub, m.parameters.map normalizeParameter⟩ := by
  simp only [read, h.pieces_print, h.readTypes, h.readParameters, Option.bind_eq_bind,
    Option.bind_some]

/-! ## What is read is printed and read again -/

/-- Types and names are in lower case, and values are without quotes around them. -/
structure Settled (m : MediaType) : Prop where
  main : Text.lower m.main = m.main
  sub : Text.lower m.sub = m.sub
  names : ∀ p ∈ m.parameters, Text.lower p.1 = p.1
  values : ∀ p ∈ m.parameters, Text.strip '"' p.2 = p.2

theorem settled_of_read (h : read t = some m) : m.Settled := by
  simp only [read, Option.bind_eq_bind, Option.bind_eq_some_iff] at h
  obtain ⟨types, htypes, parameters, hparameters, h⟩ := h
  cases h
  obtain ⟨main, sub, -, -, -, rfl⟩ := exists_of_readTypes htypes
  have hparameter : ∀ p ∈ parameters, ∃ name value,
      p = (Text.lower name, Text.strip '"' value) := by
    intro p hp
    obtain ⟨piece, -, hread⟩ := exists_piece_of_mem hparameters hp
    exact exists_of_readParameter hread
  refine ⟨Text.lower_lower main, Text.lower_lower sub, ?_, ?_⟩
  · intro p hp
    obtain ⟨name, value, rfl⟩ := hparameter p hp
    exact Text.lower_lower name
  · intro p hp
    obtain ⟨name, value, rfl⟩ := hparameter p hp
    exact Text.strip_strip '"' value

/-- Printing and reading a settled media type changes nothing but values with blanks at their
ends. -/
theorem Settled.map_normalizeParameter_eq_iff (h : m.Settled) :
    m.parameters.map normalizeParameter = m.parameters ↔
      ∀ p ∈ m.parameters, Text.Trimmed p.2 := by
  have hmap : m.parameters.map normalizeParameter = m.parameters ↔
      ∀ p ∈ m.parameters, normalizeParameter p = p := by
    simpa using List.map_inj_left (f := normalizeParameter) (g := id) (l := m.parameters)
  rw [hmap]
  refine forall₂_congr fun p hp => ?_
  rw [← Text.strip_trim_eq_self_iff (h.values p hp), normalizeParameter, h.names p hp,
    Prod.ext_iff, and_iff_right rfl]

/-- **What is read can be printed and read again.**  Types, names and their order stay as they are.
A value loses the blanks that stand at its ends, and quotes that come to its ends by that.  So the
same media type is read again if and only if no value begins or ends with a blank. -/
theorem read_print_of_read (h : read t = some m) :
    ∃ n, read m.print = some n ∧ n.main = m.main ∧ n.sub = m.sub ∧
      n.parameters = m.parameters.map (fun p => (p.1, Text.strip '"' (Text.trim p.2))) ∧
      (n = m ↔ ∀ p ∈ m.parameters, Text.Trimmed p.2) := by
  have hsettled := settled_of_read h
  refine ⟨_, (grammatical_of_read h).read_print, hsettled.main, hsettled.sub, ?_, ?_⟩
  · refine List.map_congr_left fun p hp => ?_
    rw [normalizeParameter, hsettled.names p hp]
  · rw [← hsettled.map_normalizeParameter_eq_iff]
    cases m
    simp [hsettled.main, hsettled.sub]

/-- Quotes with blanks and quotes inside, and a value with an equals sign. -/
theorem quoted_read_print_of_read :
    ∃ m n, read "Text/Plain; A=\"b=c\"; title=\" \"x \"".toList = some m ∧ read m.print = some n ∧
      n.parameters = [("a".toList, "b=c".toList), ("title".toList, "x".toList)] := by
  obtain ⟨n, hn, -, -, hparameters, -⟩ := read_print_of_read
    (t := "Text/Plain; A=\"b=c\"; title=\" \"x \"".toList) (m := ⟨"text".toList, "plain".toList,
      [("a".toList, "b=c".toList), ("title".toList, " \"x ".toList)]⟩) (by decide)
  exact ⟨_, n, by decide, hn, by rw [hparameters]; decide⟩

/-- A blank between quotes gets lost when the media type is printed and read again. -/
theorem read_print_quoted_blank :
    ∃ m n, read "text/plain; title=\" x\"".toList = some m ∧ read m.print = some n ∧ n ≠ m := by
  refine ⟨⟨"text".toList, "plain".toList, [("title".toList, " x".toList)]⟩,
    ⟨"text".toList, "plain".toList, [("title".toList, "x".toList)]⟩, ?_, ?_, ?_⟩ <;> decide

end MediaType

end ContentNegotiation
