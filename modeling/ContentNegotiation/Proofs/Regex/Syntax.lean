import ContentNegotiation.Regex.Engine

/-!
# The documented syntax of expressions

Which texts are expressions, and what they match, is left to an engine.  All that is relied on is
what is documented of its syntax: what `^`, `$` and groups mean, that the parts of a sequence match
one behind the other, and that a search goes through the whole text.

* `RegexEngine.Documented` — the engine follows this syntax.

Principal result: `RegexEngine.Documented.isMatch_tied_iff` (a source that does not reach out of the
group in which it is written is tied to both ends of a text).
-/

namespace ContentNegotiation

namespace RegexEngine

/-- The source in a group that captures nothing. -/
def group (source : Text) : Text :=
  "(?:".toList ++ source ++ ")".toList

/-- A text is matched from its first to its last character. -/
def MatchesWhole (Matches : Text → Text → Nat → Nat → Prop) (source text : Text) : Prop :=
  Matches source text 0 text.length

variable [RegexEngine] {Valid : Text → Prop} {Matches : Text → Text → Nat → Nat → Prop}

/-- The engine follows its documented syntax, in which some sources are valid, and match a text
between some of its positions.  A limit on the size of expressions is no part of the syntax, so
nothing says that a valid source compiles. -/
structure Documented (Valid : Text → Prop) (Matches : Text → Text → Nat → Nat → Prop) : Prop where
  /-- What compiles is valid. -/
  valid {source : Text} {r : Expression} : compile source = some r → Valid source
  /-- An expression is searched for everywhere in the text. -/
  search {source : Text} {r : Expression} : compile source = some r → ∀ t,
    (isMatch r t = true ↔ ∃ i j, i ≤ j ∧ j ≤ t.length ∧ Matches source t i j)
  /-- `^` matches at the start of the text. -/
  start (t : Text) (i j : Nat) : Matches ['^'] t i j ↔ i = 0 ∧ j = 0
  /-- `$` matches at the end of the text. -/
  finish (t : Text) (i j : Nat) : Matches ['$'] t i j ↔ i = t.length ∧ j = t.length
  /-- `(?:x)` matches what the expression `x` matches. -/
  grouping {source : Text} : Valid source → Valid (group source) → ∀ t i j,
    (Matches (group source) t i j ↔ Matches source t i j)
  /-- Between the parentheses of a group stands an expression, if they are the only ones that could
  close it. -/
  content {source : Text} : ')' ∉ source → Valid (group source) → Valid source
  /-- `^(?:x)$` is a sequence of three, if the group goes up to the last parenthesis. -/
  sequence {source : Text} : Valid source ∨ ')' ∉ source → Valid (tied source) →
    Valid (group source) ∧ ∀ t i j, (Matches (tied source) t i j ↔
      ∃ k l, Matches ['^'] t i k ∧ Matches (group source) t k l ∧ Matches ['$'] t l j)

/-- **A tied source is found in the texts that it matches as a whole**, and is valid by itself. -/
theorem Documented.isMatch_tied_iff (hdoc : Documented Valid Matches) {source : Text}
    {w : Expression} (h : compileTied source = some w) (hsource : Valid source ∨ ')' ∉ source) :
    Valid source ∧ ∀ t, (isMatch w t = true ↔ MatchesWhole Matches source t) := by
  obtain ⟨hgroup, hsequence⟩ := hdoc.sequence hsource (hdoc.valid h)
  have hvalid : Valid source := hsource.elim id fun hclose => hdoc.content hclose hgroup
  refine ⟨hvalid, fun t => ?_⟩
  rw [hdoc.search h]
  simp only [hsequence, hdoc.start, hdoc.finish, hdoc.grouping hvalid hgroup]
  constructor
  · rintro ⟨i, j, -, -, k, l, ⟨rfl, rfl⟩, hmatch, rfl, rfl⟩
    exact hmatch
  · intro hmatch
    exact ⟨0, t.length, Nat.zero_le _, Nat.le_refl _, 0, t.length, ⟨rfl, rfl⟩, hmatch, rfl, rfl⟩

end RegexEngine

end ContentNegotiation
