import ContentNegotiation.Proofs.Preference.Header

/-!
# Fields in several lines

A field may be given in several lines, which count as one with commas between them. So it does not
matter how a list is spread over lines, and blank elements do not count.

* `AcceptList.elements_join_comma` — the elements of joined lines are those of each line in turn.
* `AcceptList.read_append_comma` — what is read of two lines, or the error of the first that fails.

Principal result: `AcceptList.read_joined`.
-/

namespace ContentNegotiation

namespace AcceptList

/-! ## Elements -/

theorem elements_of_allBlank {t : Text} (h : t.allBlank = true) : elements t = [] := by
  have hcomma : ',' ∉ t := Text.not_mem_of_allBlank h (by decide)
  rw [elements_of_not_mem hcomma, if_pos (Text.trim_eq_nil_iff.mpr (Text.allBlank_iff.mp h))]

/-- **The elements of joined lines are those of each line in turn.** -/
theorem elements_join_comma (lines : List Text) :
    elements (Text.join [','] lines) = lines.flatMap elements := by
  induction lines with
  | nil => rfl
  | cons t lines ih =>
      cases lines with
      | nil => simp
      | cons u lines =>
          rw [Text.join_cons_cons, List.append_assoc, List.singleton_append, elements_append, ih,
            List.flatMap_cons (x := t)]

/-! ## Lists -/

variable {α : Type} [AxisValue α]

/-- **A comma joins what stands on its two sides.**  The first side that cannot be read decides the
error. -/
theorem read_append_comma (a b : Text) :
    (read (a ++ ',' :: b) : Except PreferenceError (AcceptList α)) =
      match (read a : Except PreferenceError (AcceptList α)),
        (read b : Except PreferenceError (AcceptList α)) with
      | .ok l, .ok k => .ok (l ++ k)
      | .error e, _ => .error e
      | .ok _, .error e => .error e := by
  unfold read
  rw [elements_append, List.mapM_append]
  cases (elements a).mapM (readEntry (α := α)) with
  | error e => rfl
  | ok l => cases (elements b).mapM (readEntry (α := α)) <;> rfl

theorem read_join_comma (lines : List Text) :
    (read (Text.join [','] lines) : Except PreferenceError (AcceptList α)) =
      (lines.mapM read).map List.flatten := by
  unfold read
  rw [elements_join_comma, mapM_flatMap]

theorem read_insert_blank {blank : Text} (h : blank.allBlank = true) (before after : List Text) :
    (read (Text.join [','] (before ++ blank :: after)) : Except PreferenceError (AcceptList α)) =
      read (Text.join [','] (before ++ after)) := by
  have helements : elements (Text.join [','] (before ++ blank :: after)) =
      elements (Text.join [','] (before ++ after)) := by
    simp [elements_join_comma, elements_of_allBlank h]
  rw [read, helements, read]

/-- **How a list is spread over lines does not matter.**  Two texts with a comma between them state
the entries of the first and then those of the second, or fail like the first of them that fails.
So lines joined with commas state what they state one after the other, and a blank element anywhere
between them changes nothing. -/
theorem read_joined :
    (∀ a b : Text, (read (a ++ ',' :: b) : Except PreferenceError (AcceptList α)) =
      match (read a : Except PreferenceError (AcceptList α)),
        (read b : Except PreferenceError (AcceptList α)) with
      | .ok l, .ok k => .ok (l ++ k)
      | .error e, _ => .error e
      | .ok _, .error e => .error e) ∧
    (∀ lines : List Text, (read (Text.join [','] lines) : Except PreferenceError (AcceptList α)) =
      (lines.mapM read).map List.flatten) ∧
    ∀ (before after : List Text) (blank : Text), blank.allBlank = true →
      (read (Text.join [','] (before ++ blank :: after)) :
          Except PreferenceError (AcceptList α)) =
        read (Text.join [','] (before ++ after)) :=
  ⟨read_append_comma, read_join_comma, fun before after _ h => read_insert_blank h before after⟩

/-- A line of blanks between two lines is left out, and of two lines that cannot be read the first
one decides. -/
theorem languages_read_joined :
    Text.allBlank " \t".toList = true ∧
      read (Text.join [','] ["en-gb".toList, " \t".toList, "EN ,fr".toList]) =
        .ok [⟨LanguageTag.ofTag "en-GB".toList, .highest⟩, ⟨.ofTag "en".toList, .highest⟩,
          ⟨.ofTag "fr".toList, .highest⟩] ∧
      (read ("en;q=x".toList ++ ',' :: "e_n".toList) : Except _ (AcceptList LanguageTag)) =
        .error (.weight "x".toList) := by
  have hblank : Text.allBlank " \t".toList = true := by decide
  obtain ⟨hcomma, hlines, hinsert⟩ := read_joined (α := LanguageTag)
  refine ⟨hblank, ?_, ?_⟩
  · refine (hinsert ["en-gb".toList] ["EN ,fr".toList] _ hblank).trans ?_
    rw [hlines]
    decide +kernel
  · rw [hcomma]
    decide +kernel

end AcceptList

end ContentNegotiation
