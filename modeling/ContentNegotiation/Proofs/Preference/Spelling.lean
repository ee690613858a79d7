import ContentNegotiation.Proofs.Preference.Joined
import Mathlib.Logic.Relation

/-!
# What an element states

An element states a value and perhaps a weight.  What stands behind the weight is not looked at, and
neither are blanks at the ends of its parts or the case of the letter that names the weight.

* `AcceptList.parts`, `AcceptList.stated` — the parts of an element, and the texts of the value and
  of the weight that they state.  `AcceptList.readEntry_eq` — nothing else is read.
* `AcceptList.stated_weight` — the weight ends what an element states.
* `AcceptList.Respelled` — one change of the spelling of an element.
* `AcceptList.Alike` — elements of which either may stand for the other: one change leads to such an
  element (`AcceptList.Respelled.alike`), and so does any number of them.

Principal result: `AcceptList.extensions_and_spelling_inert`.
-/

namespace ContentNegotiation

namespace AcceptList

/-! ## The texts of value and weight -/

/-- The parts of an element, without the blanks around them. -/
def parts (element : Text) : List Text :=
  (Text.splitAll ';' element).map Text.trim

/-- The texts of the value and of the weight that parts state. -/
def stated : List Text → Text × Option Text
  | [] => ([], none)
  | first :: parameters =>
    let (own, weight) := splitAtWeight parameters
    (Text.join [';'] (first :: own), weight)

variable {α : Type} [AxisValue α]

/-- **Nothing is read of an element but what its parts state.** -/
theorem readEntry_eq (element : Text) :
    (readEntry element : Except PreferenceError (Entry α)) = do
      let quality ← readWeight (stated (parts element)).2
      let value ← readValue (stated (parts element)).1
      return ⟨value, quality⟩ := rfl

theorem parts_ne_nil (t : Text) : parts t ≠ [] := by
  simp [parts, Text.splitAll]

theorem parts_append (a b : Text) : parts (a ++ ';' :: b) = parts a ++ parts b := by
  rw [parts, Text.splitAll_append_cons, List.map_append, parts, parts]

theorem parts_blanks_append {blanks : Text} (h : blanks.allBlank = true) (t : Text) :
    parts (blanks ++ t) = parts t :=
  Text.map_trim_splitAll_blank_append (by decide) (Text.allBlank_iff.mp h) t

theorem parts_append_blanks {blanks : Text} (h : blanks.allBlank = true) (t : Text) :
    parts (t ++ blanks) = parts t :=
  Text.map_trim_splitAll_append_blank (by decide) (Text.allBlank_iff.mp h) t

/-! ## The weight -/

/-- A spelling of the name of the weight: the letter in either case, with blanks around it. -/
inductive NamesWeight : Text → Prop
  | intro (left : Text) (letter : Char) (right : Text) (hleft : left.allBlank = true)
      (hletter : letter = 'q' ∨ letter = 'Q') (hright : right.allBlank = true) :
      NamesWeight (left ++ letter :: right)

theorem namesWeight_q : NamesWeight ['q'] :=
  .intro [] 'q' [] rfl (.inl rfl) rfl

namespace NamesWeight

variable {name : Text}

theorem lower_trim (h : NamesWeight name) : Text.lower name.trim = ['q'] := by
  obtain ⟨left, letter, right, hleft, hletter, hright⟩ := h
  rw [Text.trim_blank_append (Text.allBlank_iff.mp hleft), ← List.singleton_append,
    Text.trim_append_blank (Text.allBlank_iff.mp hright)]
  rcases hletter with rfl | rfl <;> decide

/-- Beside the letter there are only blanks. -/
theorem not_mem (h : NamesWeight name) {c : Char} (hblank : isBlank c = false)
    (hother : c.toLower ≠ 'q') : c ∉ name := by
  obtain ⟨left, letter, right, hleft, hletter, hright⟩ := h
  rw [List.mem_append, List.mem_cons]
  rintro (hc | rfl | hc)
  · exact Text.not_mem_of_allBlank hleft hblank hc
  · rcases hletter with rfl | rfl <;> exact hother (by decide)
  · exact Text.not_mem_of_allBlank hright hblank hc

end NamesWeight

/-- Blanks around a parameter do not count for the weight that it states. -/
theorem weightOf_trim (parameter : Text) : weightOf parameter.trim = weightOf parameter := by
  by_cases h : '=' ∈ parameter
  · obtain ⟨name, weight, rfl, hname⟩ := List.eq_append_cons_of_mem h
    have hname' : '=' ∉ name.dropWhile isBlank :=
      fun hmem => hname ((List.dropWhile_suffix isBlank).subset hmem)
    rw [Text.trim_around (by decide), weightOf, Text.splitFirst_append_cons hname', weightOf,
      Text.splitFirst_append_cons hname]
    simp only [Text.trim_dropWhile, Text.trim_rdropWhile]
  · have h' : '=' ∉ parameter.trim := mt Text.mem_of_mem_trim h
    rw [weightOf, Text.splitFirst_of_not_mem h', weightOf, Text.splitFirst_of_not_mem h]

theorem weightOf_named {name : Text} (h : NamesWeight name) (weight : Text) :
    weightOf (name ++ '=' :: weight) = some weight.trim := by
  have hequals : '=' ∉ name := h.not_mem (by decide) (by decide)
  simp only [weightOf, Text.splitFirst_append_cons hequals, h.lower_trim, if_pos]

/-- Whatever stands behind a weight does not count. -/
theorem splitAtWeight_append_cons {p w : Text} (h : weightOf p = some w)
    (before after : List Text) :
    splitAtWeight (before ++ p :: after) =
      ((splitAtWeight before).1, (splitAtWeight before).2.or (some w)) := by
  induction before with
  | nil => simp [splitAtWeight, h]
  | cons q before ih =>
      rw [List.cons_append, splitAtWeight, ih, splitAtWeight]
      cases weightOf q <;> rfl

/-- **The weight ends what an element states.**  It counts up to the next semicolon, unless a weight
is stated before it. -/
theorem stated_weight {name : Text} (h : NamesWeight name) (u t : Text) :
    stated (parts (u ++ ';' :: (name ++ '=' :: t))) =
      ((stated (parts u)).1, (stated (parts u)).2.or (some (Text.pieces ';' t).1.trim)) := by
  have hsemicolon : ';' ∉ name ++ ['='] := by
    simp [h.not_mem (c := ';') (by decide) (by decide)]
  have hpieces : Text.pieces ';' (name ++ '=' :: t) =
      (name ++ '=' :: (Text.pieces ';' t).1, (Text.pieces ';' t).2) := by
    simpa using Text.pieces_append_of_not_mem hsemicolon t
  have hparts : parts (name ++ '=' :: t) =
      (name ++ '=' :: (Text.pieces ';' t).1).trim :: (Text.pieces ';' t).2.map Text.trim := by
    rw [parts, Text.splitAll, hpieces, List.map_cons]
  have hweight := (weightOf_trim _).trans (weightOf_named h (Text.pieces ';' t).1)
  rw [parts_append, hparts]
  cases hu : parts u with
  | nil => exact absurd hu (parts_ne_nil u)
  | cons first us => simp only [List.cons_append, stated, splitAtWeight_append_cons hweight]

/-! ## Elements that state the same -/

/-- Elements of which either may stand for the other: they state the same value and weight, and a
list leaves both out or neither, and cuts both or neither. -/
structure Alike (element other : Text) : Prop where
  stated : stated (parts other) = stated (parts element)
  allBlank : other.allBlank = element.allBlank
  comma : ',' ∈ other ↔ ',' ∈ element

namespace Alike

variable {e f g : Text}

theorem refl (e : Text) : Alike e e := ⟨rfl, rfl, Iff.rfl⟩

theorem trans (hef : Alike e f) (hfg : Alike f g) : Alike e g :=
  ⟨hfg.stated.trans hef.stated, hfg.allBlank.trans hef.allBlank, hfg.comma.trans hef.comma⟩

theorem readEntry_eq (h : Alike e f) :
    (readEntry f : Except PreferenceError (Entry α)) = readEntry e := by
  rw [AcceptList.readEntry_eq, h.stated, AcceptList.readEntry_eq]

end Alike

/-- Blanks at the ends do not count. -/
theorem alike_blanks {left right : Text} (hleft : left.allBlank = true)
    (hright : right.allBlank = true) (e : Text) : Alike e (left ++ e ++ right) := by
  have hcomma : isBlank ',' = false := by decide
  refine ⟨by rw [parts_append_blanks hright, parts_blanks_append hleft], ?_, ?_⟩
  · unfold Text.allBlank at *
    simp [hleft, hright]
  · simp [Text.not_mem_of_allBlank hleft hcomma, Text.not_mem_of_allBlank hright hcomma]

/-- What is read of a text without commas: nothing if it is blank, or else one entry. -/
theorem read_of_not_mem {e : Text} (h : ',' ∉ e) :
    (read e : Except PreferenceError (AcceptList α)) =
      if e.allBlank then .ok [] else (readEntry e).map ([·]) := by
  by_cases hblank : e.allBlank = true
  · rw [if_pos hblank, read, elements_of_allBlank hblank]
    rfl
  · have hne : e.trim ≠ [] := by
      intro hnil
      exact hblank (Text.allBlank_iff.mpr (Text.trim_eq_nil_iff.mp hnil))
    have helements : elements e = [e.trim] := by
      rw [elements_of_not_mem h, if_neg hne]
    obtain ⟨left, right, hleft, hright, he⟩ := Text.exists_blanks_trim e
    have halike : Alike e.trim e := by
      have := alike_blanks (Text.allBlank_iff.mpr hleft) (Text.allBlank_iff.mpr hright) e.trim
      rwa [← he] at this
    rw [if_neg hblank, read, helements, halike.readEntry_eq, List.mapM_cons, List.mapM_nil]
    cases (readEntry e.trim : Except PreferenceError (Entry α)) <;> rfl

/-- In a list, either of two elements that are alike may stand for the other. -/
theorem Alike.read_join {e f : Text} (h : Alike e f) (he : ',' ∉ e) (before after : List Text) :
    (read (Text.join [','] (before ++ f :: after)) : Except PreferenceError (AcceptList α)) =
      read (Text.join [','] (before ++ e :: after)) := by
  have hread : (read f : Except PreferenceError (AcceptList α)) = read e := by
    rw [read_of_not_mem he, read_of_not_mem (mt h.comma.mp he), h.allBlank, h.readEntry_eq]
  rw [read_join_comma, read_join_comma, List.mapM_append, List.mapM_append, List.mapM_cons,
    List.mapM_cons, hread]

/-! ## Extensions and changes of spelling -/

theorem allBlank_semicolon (a b : Text) : Text.allBlank (a ++ ';' :: b) = false := by
  have hsemicolon : isBlank ';' = false := by decide
  simp [Text.allBlank, hsemicolon]

/-- What follows a weight is an extension, which does not count. -/
theorem alike_extension {u w x : Text} (hw : ';' ∉ w) (hx : ',' ∉ x) :
    Alike (u ++ ";q=".toList ++ w) (u ++ ";q=".toList ++ w ++ ';' :: x) := by
  have helement : ∀ t : Text, u ++ ";q=".toList ++ t = u ++ ';' :: (['q'] ++ '=' :: t) := by simp
  rw [List.append_assoc _ w, helement, helement]
  refine ⟨?_, ?_, ?_⟩
  · rw [stated_weight namesWeight_q, stated_weight namesWeight_q, Text.pieces_of_not_mem hw,
      Text.pieces_append_cons hw]
  · rw [allBlank_semicolon, allBlank_semicolon]
  · simp [hx]

/-- One change in the spelling of an element: blanks put around all of it, so next to the commas of
a list, or around a semicolon; or the name of a weight spelled another way, with blanks put behind
the equals sign as well. -/
inductive Respelled : Text → Text → Prop
  | outside (left e right : Text) (hleft : left.allBlank = true) (hright : right.allBlank = true) :
      Respelled e (left ++ e ++ right)
  | semicolon (a left right b : Text) (hleft : left.allBlank = true)
      (hright : right.allBlank = true) :
      Respelled (a ++ ';' :: b) (a ++ left ++ ';' :: (right ++ b))
  | weight (a name other blanks b : Text) (hname : NamesWeight name) (hother : NamesWeight other)
      (hblanks : blanks.allBlank = true) :
      Respelled (a ++ ';' :: (name ++ '=' :: b)) (a ++ ';' :: (other ++ '=' :: (blanks ++ b)))

/-- **A change of spelling leaves an element what it is.** -/
theorem Respelled.alike {e f : Text} (h : Respelled e f) : Alike e f := by
  have hcomma : isBlank ',' = false := by decide
  cases h with
  | outside left e right hleft hright => exact alike_blanks hleft hright e
  | semicolon a left right b hleft hright =>
      refine ⟨?_, ?_, ?_⟩
      · rw [parts_append, parts_append_blanks hleft, parts_blanks_append hright, parts_append]
      · rw [allBlank_semicolon, allBlank_semicolon]
      · simp [Text.not_mem_of_allBlank hleft hcomma, Text.not_mem_of_allBlank hright hcomma]
  | weight a name other blanks b hname hother hblanks =>
      have hsemicolon : ';' ∉ blanks := Text.not_mem_of_allBlank hblanks (by decide)
      have hnone : ∀ {t : Text}, NamesWeight t → ',' ∉ t := fun ht => ht.not_mem hcomma (by decide)
      refine ⟨?_, ?_, ?_⟩
      · rw [stated_weight hother, stated_weight hname, Text.pieces_append_of_not_mem hsemicolon,
          Text.trim_blank_append (Text.allBlank_iff.mp hblanks)]
      · rw [allBlank_semicolon, allBlank_semicolon]
      · simp [hnone hname, hnone hother, Text.not_mem_of_allBlank hblanks hcomma]

/-- Any number of changes leaves an element what it is. -/
theorem alike_of_respelled {e f : Text} (h : Relation.ReflTransGen Respelled e f) : Alike e f := by
  induction h with
  | refl => exact .refl e
  | tail _ hstep ih => exact ih.trans hstep.alike

/-- **Extensions and spelling do not count.**  What follows the weight of an element may be left
out.  So may blanks next to its semicolons, at its ends and around the equals sign of its weight,
and the name of the weight may be written in either case.  None of this changes what is read of the
element, be it an entry or an error, nor what is read of a list in which it stands. -/
theorem extensions_and_spelling_inert :
    (∀ u w x : Text, ',' ∉ u → ',' ∉ w → ';' ∉ w → ',' ∉ x →
      (readEntry (u ++ ";q=".toList ++ w ++ ';' :: x) : Except PreferenceError (Entry α)) =
        readEntry (u ++ ";q=".toList ++ w) ∧
      ∀ before after : List Text,
        (read (Text.join [','] (before ++ (u ++ ";q=".toList ++ w ++ ';' :: x) :: after)) :
            Except PreferenceError (AcceptList α)) =
          read (Text.join [','] (before ++ (u ++ ";q=".toList ++ w) :: after))) ∧
    ∀ e f : Text, ',' ∉ e → Relation.ReflTransGen Respelled e f →
      (readEntry f : Except PreferenceError (Entry α)) = readEntry e ∧
      ∀ before after : List Text,
        (read (Text.join [','] (before ++ f :: after)) : Except PreferenceError (AcceptList α)) =
          read (Text.join [','] (before ++ e :: after)) := by
  constructor
  · intro u w x hu hw hw' hx
    have halike := alike_extension (u := u) hw' hx
    have hcomma : ',' ∉ u ++ ";q=".toList ++ w := by
      simp [hu, hw]
    exact ⟨halike.readEntry_eq, halike.read_join hcomma⟩
  · intro e f he h
    have halike := alike_of_respelled h
    exact ⟨halike.readEntry_eq, halike.read_join he⟩

/-- Pages of the first level, at a quarter of the quality. -/
def quarterPages : Entry MediaType :=
  ⟨MediaType.textHtml.withParameter "level".toList "1".toList,
    ⟨.number false ⟨0x3E800000, by decide⟩, by decide, by decide⟩⟩

/-- How such pages are written plainly. -/
def plainPages : Text := "text/html;level=1;q=0.25".toList

/-- The same with blanks, some of them beyond ASCII, and a capital letter. -/
def spacedPages : Text := "\n text/html;level=1 ;\t\u3000Q = 0.25\u00a0".toList

theorem respelled_spacedPages : Relation.ReflTransGen Respelled plainPages spacedPages := by
  have hother : NamesWeight ['\u3000', 'Q', ' '] := .intro ['\u3000'] 'Q' [' '] rfl (.inr rfl) rfl
  have hweight := Respelled.weight "text/html;level=1".toList ['q'] ['\u3000', 'Q', ' '] [' ']
    "0.25".toList namesWeight_q hother rfl
  have hsemicolon := Respelled.semicolon "text/html;level=1".toList [' '] ['\t']
    (['\u3000', 'Q', ' '] ++ '=' :: ([' '] ++ "0.25".toList)) rfl rfl
  have houtside := Respelled.outside ['\n', ' '] ("text/html;level=1".toList ++ [' '] ++
    ';' :: (['\t'] ++ (['\u3000', 'Q', ' '] ++ '=' :: ([' '] ++ "0.25".toList)))) ['\u00a0']
    rfl rfl
  have hplain : "text/html;level=1".toList ++ ';' :: (['q'] ++ '=' :: "0.25".toList) =
      plainPages := by
    decide
  have hspaced : ['\n', ' '] ++ ("text/html;level=1".toList ++ [' '] ++
      ';' :: (['\t'] ++ (['\u3000', 'Q', ' '] ++ '=' :: ([' '] ++ "0.25".toList)))) ++ ['\u00a0'] =
        spacedPages := by
    decide
  rw [← hplain, ← hspaced]
  exact ((Relation.ReflTransGen.single hweight).tail hsemicolon).tail houtside

/-- Another weight and an open quote behind the weight do not count. -/
theorem quarterPages_spelling_inert :
    readEntry ("text/html;level=1".toList ++ ";q=".toList ++ "0.25".toList ++
        ';' :: "q=2;title=\"a".toList) = .ok quarterPages ∧
      Relation.ReflTransGen Respelled plainPages spacedPages ∧
      readEntry spacedPages = .ok quarterPages ∧
      read (Text.join [','] (["*/*".toList] ++ spacedPages :: [[]])) =
        .ok [⟨MediaType.all, .highest⟩, quarterPages] := by
  have hentry : readEntry plainPages = .ok quarterPages := by decide +kernel
  have hlist : read (Text.join [','] (["*/*".toList] ++ plainPages :: [[]])) =
      .ok [⟨MediaType.all, .highest⟩, quarterPages] := by decide +kernel
  have hplain : "text/html;level=1".toList ++ ";q=".toList ++ "0.25".toList = plainPages := by
    decide
  obtain ⟨hextension, hspelling⟩ := extensions_and_spelling_inert (α := MediaType)
  obtain ⟨hrest, -⟩ := hextension "text/html;level=1".toList "0.25".toList "q=2;title=\"a".toList
    (by decide) (by decide) (by decide) (by decide)
  obtain ⟨hrespelled, hjoin⟩ := hspelling plainPages spacedPages (by decide) respelled_spacedPages
  refine ⟨?_, respelled_spacedPages, hrespelled.trans hentry,
    (hjoin ["*/*".toList] [[]]).trans hlist⟩
  rw [hrest, hplain, hentry]

end AcceptList

end ContentNegotiation
