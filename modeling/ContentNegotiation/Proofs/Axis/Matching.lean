import ContentNegotiation.Axis.PerAxis
import Mathlib.Tactic.SplitIfs

/-!
# How values match

A media range holds every type inside it, and a full type every candidate that has its parameters.
Under a name that is repeated, in whatever case, only the first parameter is found.

* `MediaType.Matches` — the three ways in which a preference matches a candidate.
* `MediaType.MetBy` — every parameter of the one is found on the other, with the same value.
* `MediaType.SingleValued` — no parameter name has two values.
* `MediaType.matching_transitive` — a match is passed on along matches, and stays as it is when the
  candidate gets more parameters.
* `MediaType.specificity_self_iff`, `LanguageTag.specificity_self`, `nameSpecificity_self` — which
  values match themselves.
-/

namespace ContentNegotiation

namespace MediaType

variable {m p q v : MediaType} {k : Specificity} {name name' value : Text}

/-! ## Looking up parameters -/

theorem parameter_congr (h : Text.lower name = Text.lower name') :
    m.parameter name = m.parameter name' := by
  simp [parameter, Text.sameIgnoringCase, h]

/-- What is found under a name stands in the list beside that name. -/
theorem exists_of_parameter (h : m.parameter name = some value) :
    ∃ a ∈ m.parameters, Text.lower a.1 = Text.lower name ∧ a.2 = value := by
  obtain ⟨a, ha, rfl⟩ := Option.map_eq_some_iff.mp h
  have hname : Text.lower a.1 = Text.lower name := by
    simpa [Text.sameIgnoringCase] using List.find?_some ha
  exact ⟨a, List.mem_of_find?_eq_some ha, hname, rfl⟩

/-- Under a name that stands in the list something is found. -/
theorem exists_parameter_of_mem {a : Text × Text} (ha : a ∈ m.parameters) :
    ∃ value, m.parameter a.1 = some value := by
  have hfound : (m.parameters.find? fun b => Text.sameIgnoringCase b.1 a.1).isSome = true :=
    List.find?_isSome.mpr ⟨a, ha, by simp [Text.sameIgnoringCase]⟩
  obtain ⟨b, hb⟩ := Option.isSome_iff_exists.mp hfound
  exact ⟨b.2, by rw [parameter, hb, Option.map_some]⟩

/-- A parameter that is found stays the first of its name. -/
theorem parameter_withParameter (h : m.parameter name = some value) (name' value' : Text) :
    (m.withParameter name' value').parameter name = some value := by
  obtain ⟨a, ha, rfl⟩ := Option.map_eq_some_iff.mp h
  simp [parameter, withParameter, List.find?_append, ha]

/-! ## Parameters that are met -/

/-- Every parameter of the media type is found on the candidate, with the same value. -/
def MetBy (m candidate : MediaType) : Prop :=
  ∀ a ∈ m.parameters, candidate.parameter a.1 = some a.2

theorem all_parameters_iff :
    (p.parameters.all fun a => q.parameter a.1 == some a.2) = true ↔ p.MetBy q := by
  simp only [List.all_eq_true, beq_iff_eq, MetBy]

theorem MetBy.trans (hpq : p.MetBy q) (hqv : q.MetBy v) : p.MetBy v := by
  intro a ha
  -- what is found for `a` is itself a parameter, and so found in its turn
  obtain ⟨b, hb, hname, hvalue⟩ := exists_of_parameter (hpq a ha)
  rw [← parameter_congr hname, hqv b hb, hvalue]

theorem MetBy.withParameter (h : p.MetBy q) (name value : Text) :
    p.MetBy (q.withParameter name value) :=
  fun a ha => parameter_withParameter (h a ha) name value

/-- No parameter name, in whatever case, has two values. -/
def SingleValued (m : MediaType) : Prop :=
  ∀ a ∈ m.parameters, ∀ b ∈ m.parameters, Text.lower a.1 = Text.lower b.1 → a.2 = b.2

instance (m : MediaType) : Decidable m.SingleValued :=
  inferInstanceAs (Decidable (∀ a ∈ m.parameters, ∀ b ∈ m.parameters,
    Text.lower a.1 = Text.lower b.1 → a.2 = b.2))

/-- **A media type has its own parameters if and only if it is single-valued.** -/
theorem metBy_self_iff : m.MetBy m ↔ m.SingleValued := by
  constructor
  · intro h a ha b hb hname
    have hsame : some a.2 = some b.2 := by rw [← h a ha, ← h b hb, parameter_congr hname]
    exact Option.some.inj hsame
  · intro h a ha
    obtain ⟨value, hvalue⟩ := exists_parameter_of_mem ha
    obtain ⟨b, hb, hname, rfl⟩ := exists_of_parameter hvalue
    rw [hvalue, h b hb a ha hname]

/-! ## Matches -/

/-- How a preference matches a candidate: it is the range of all types, the range of the candidate's
type, or a full type whose parameters the candidate has. -/
inductive Matches (p c : MediaType) : Specificity → Prop
  | wildcard (hall : p.main = wildcardText) : Matches p c .wildcard
  | family (hmain : p.main ≠ wildcardText) (hsame : p.main = c.main)
      (hrange : p.sub = wildcardText) : Matches p c .family
  | exact (hmain : p.main ≠ wildcardText) (hsame : p.main = c.main)
      (hsub : p.sub ≠ wildcardText) (hsame' : p.sub = c.sub) (hmet : p.MetBy c) :
      Matches p c .exact

theorem specificity_eq_some_iff : p.specificity q = some k ↔ Matches p q k := by
  constructor
  · intro h
    simp only [specificity, isWildcard, beq_iff_eq, bne_iff_ne, ne_eq, ite_not] at h
    split_ifs at h with hall hsame hrange hsame' hmet
    · cases h
      exact .wildcard hall
    · cases h
      exact .family hall hsame hrange
    · cases h
      exact .exact hall hsame hrange hsame' (all_parameters_iff.mp hmet)
  · intro h
    cases h with
    | wildcard hall => simp [specificity, isWildcard, hall]
    | family hmain hsame hrange =>
        rw [hsame] at hmain
        simp [specificity, isWildcard, hmain, hsame, hrange]
    | exact hmain hsame hsub hsame' hmet =>
        rw [hsame] at hmain
        rw [hsame'] at hsub
        simp [specificity, isWildcard, hmain, hsame, hsub, hsame', all_parameters_iff.mpr hmet]

theorem Matches.trans (hpq : Matches p q k) {j : Specificity} (hqv : Matches q v j) :
    Matches p v k := by
  cases hpq with
  | wildcard hall => exact .wildcard hall
  | family hmain hsame hrange =>
      -- the middle one has the type of the first, so it is not the range of all types
      cases hqv with
      | wildcard hall => exact absurd (hsame.trans hall) hmain
      | family _ hsame' _ => exact .family hmain (hsame.trans hsame') hrange
      | exact _ hsame' _ _ _ => exact .family hmain (hsame.trans hsame') hrange
  | exact hmain hsame hsub hsub' hmet =>
      cases hqv with
      | wildcard hall => exact absurd (hsame.trans hall) hmain
      | family _ _ hrange => exact absurd (hsub'.trans hrange) hsub
      | exact _ hsame' _ hsub'' hmet' =>
          exact .exact hmain (hsame.trans hsame') hsub (hsub'.trans hsub'') (hmet.trans hmet')

theorem Matches.withParameter (h : Matches p q k) (name value : Text) :
    Matches p (q.withParameter name value) k := by
  cases h with
  | wildcard hall => exact .wildcard hall
  | family hmain hsame hrange => exact .family hmain hsame hrange
  | exact hmain hsame hsub hsub' hmet =>
      exact .exact hmain hsame hsub hsub' (hmet.withParameter name value)

/-- The media type with parameters appended in order. -/
def withParameters (m : MediaType) (added : List (Text × Text)) : MediaType :=
  added.foldl (fun m a => m.withParameter a.1 a.2) m

theorem Matches.withParameters (h : Matches p q k) (added : List (Text × Text)) :
    Matches p (q.withParameters added) k := by
  induction added generalizing q with
  | nil => exact h
  | cons a added ih => exact ih (h.withParameter a.1 a.2)

/-- **A match is passed on along matches, as closely as it was, and parameters that are appended to
the candidate do not change it.** -/
theorem matching_transitive (h : p.specificity q = some k) :
    (∀ v, (q.specificity v).isSome = true → p.specificity v = some k) ∧
      ∀ added, p.specificity (q.withParameters added) = some k := by
  have hmatch := specificity_eq_some_iff.mp h
  constructor
  · intro v hv
    obtain ⟨j, hj⟩ := Option.isSome_iff_exists.mp hv
    exact specificity_eq_some_iff.mpr (hmatch.trans (specificity_eq_some_iff.mp hj))
  · intro added
    exact specificity_eq_some_iff.mpr (hmatch.withParameters added)

/-- Pages of the first level. -/
def firstLevel : MediaType :=
  textHtml.withParameter "level".toList "1".toList

/-- The level is stated twice, and a style as well. -/
def styledLevel : MediaType :=
  firstLevel.withParameters [("Level".toList, "1".toList), ("style".toList, "plain".toList)]

/-- Of two levels the first one counts. -/
def twoLevels : MediaType :=
  textHtml.withParameters [("style".toList, "plain".toList), ("LEVEL".toList, "1".toList),
    ("level".toList, "2".toList)]

theorem levels_matching_transitive :
    firstLevel.specificity styledLevel = some .exact ∧
      (styledLevel.specificity twoLevels).isSome = true ∧
      firstLevel.specificity twoLevels = some .exact ∧
      firstLevel.specificity (styledLevel.withParameters [("level".toList, "2".toList)]) =
        some .exact := by
  have hmatch : firstLevel.specificity styledLevel = some .exact := by decide
  have hnext : (styledLevel.specificity twoLevels).isSome = true := by decide
  obtain ⟨htrans, hadded⟩ := matching_transitive hmatch
  exact ⟨hmatch, hnext, htrans twoLevels hnext, hadded _⟩

/-! ## A media type against itself -/

/-- **A full media type matches itself exactly if and only if it is single-valued.** -/
theorem specificity_self_iff (hmain : m.main ≠ wildcardText) (hsub : m.sub ≠ wildcardText) :
    m.specificity m = some .exact ↔ m.SingleValued := by
  rw [specificity_eq_some_iff, ← metBy_self_iff]
  constructor
  · intro h
    cases h with
    | exact _ _ _ _ hmet => exact hmet
  · intro hmet
    exact .exact hmain rfl hsub rfl hmet

/-- Otherwise it does not match itself at all. -/
theorem specificity_self_eq_none (hmain : m.main ≠ wildcardText) (hsub : m.sub ≠ wildcardText)
    (h : ¬ m.SingleValued) : m.specificity m = none := by
  refine Option.eq_none_iff_forall_ne_some.mpr fun k hk => ?_
  cases specificity_eq_some_iff.mp hk with
  | wildcard hall => exact hmain hall
  | family _ _ hrange => exact hsub hrange
  | exact _ _ _ _ hmet => exact h (metBy_self_iff.mp hmet)

end MediaType

/-! ## Other values against themselves -/

theorem LanguageTag.specificity_self {l : LanguageTag} (h : l.isWildcard = false) :
    l.specificity l = some .exact := by
  simp [specificity, h]

theorem nameSpecificity_self {name : Text} (h : name ≠ wildcardText) :
    nameSpecificity name name = some .exact := by
  simp [nameSpecificity, h]

end ContentNegotiation
