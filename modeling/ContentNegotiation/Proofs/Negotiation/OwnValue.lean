import ContentNegotiation.Proofs.Axis.Matching
import ContentNegotiation.Proofs.Negotiation.Score
import ContentNegotiation.Proofs.Negotiation.Variant

/-!
# Asking for the value of a variant

A client that names the value of a variant among those it accepts should get the variant, as far as
that axis goes. It does, unless the value is a media type with two values for one parameter: such a
media type does not even match itself.

* `Axis.SingleValued` — no parameter of the value has two values.
* `Negotiator.RefusesOn` — the axis makes the variant unacceptable.

Principal results: `Axis.specificity_self_iff` and `Negotiator.own_value_accepted`.
-/

namespace ContentNegotiation

namespace Axis

/-- No parameter name has two values. Only media types have parameters. -/
def SingleValued : (a : Axis) → a.Value → Prop
  | mediaType => MediaType.SingleValued
  | language | charset | coding => fun _ => True

variable {a : Axis} {v : a.Value}

theorem isWildcard_of_isConcrete (h : AxisValue.isConcrete v = true) :
    AxisValue.isWildcard v = false := by
  cases a with
  | mediaType => exact beq_eq_false_iff_ne.mpr (MediaType.isConcrete_iff.mp h).1
  | language | charset | coding =>
      have hwild : (!AxisValue.isWildcard v) = true := h
      simpa using hwild

/-- **A concrete value matches itself exactly if and only if it is single-valued.** -/
theorem specificity_self_iff (h : AxisValue.isConcrete v = true) :
    AxisValue.specificity v v = some .exact ↔ a.SingleValued v := by
  cases a with
  | mediaType =>
      obtain ⟨hmain, hsub⟩ := MediaType.isConcrete_iff.mp h
      exact MediaType.specificity_self_iff hmain hsub
  | language =>
      have hwild : LanguageTag.isWildcard v = false := isWildcard_of_isConcrete (a := language) h
      exact iff_of_true (LanguageTag.specificity_self hwild) trivial
  | charset => exact iff_of_true (nameSpecificity_self (Charset.isConcrete_iff.mp h)) trivial
  | coding => exact iff_of_true (nameSpecificity_self (ContentCoding.isConcrete_iff.mp h)) trivial

theorem specificity_self_eq_none (h : AxisValue.isConcrete v = true) (hv : ¬ a.SingleValued v) :
    AxisValue.specificity v v = none := by
  cases a with
  | mediaType =>
      obtain ⟨hmain, hsub⟩ := MediaType.isConcrete_iff.mp h
      exact MediaType.specificity_self_eq_none hmain hsub hv
  | language | charset | coding => exact absurd trivial hv

end Axis

namespace Negotiator

variable {n : Negotiator} {accepted : Preferences} {x : Variant} {a : Axis} {v : a.Value}

/-- The axis makes the variant unacceptable: the client demands something there, and the variant
scores zero. -/
def RefusesOn (n : Negotiator) (accepted : Preferences) (x : Variant) (a : Axis) : Prop :=
  AxisScore.rejects (accepted.get a) ((n.score accepted x).axes.get a) = true

theorem refusesOn_iff :
    n.RefusesOn accepted x a ↔ ¬ AxisScore.Admits (accepted.get a) (x.values.get a) := by
  rw [RefusesOn, axes_get_score, ← AxisScore.rejects_of_eq_false_iff, Bool.not_eq_false]

/-- An axis admits what some entry of quality above zero matches. -/
theorem not_refusesOn_of_mem {l : AcceptList a.Value} {e : Entry a.Value}
    (hx : x.values.get a = some v) (hl : accepted.get a = some l) (he : e ∈ l)
    (hpos : 0 < e.quality.value.value) (hmatch : (AxisValue.specificity e.value v).isSome = true) :
    ¬ n.RefusesOn accepted x a := by
  rw [refusesOn_iff, not_not]
  intro l' hl' _ w hw
  obtain rfl : l = l' := Option.some.inj (hl.symm.trans hl')
  obtain rfl : v = w := Option.some.inj (hx.symm.trans hw)
  exact ⟨e, he, hpos, hmatch⟩

/-- An axis refuses what the only entry of a list does not match. -/
theorem refusesOn_of_singleton {e : Entry a.Value} (hx : x.values.get a = some v)
    (hl : accepted.get a = some [e]) (hwild : AxisValue.isWildcard e.value = false)
    (hmiss : AxisValue.specificity e.value v = none) : n.RefusesOn accepted x a := by
  rw [refusesOn_iff]
  intro hadmits
  obtain ⟨f, hf, -, hmatch⟩ := hadmits [e] hl ⟨e, List.mem_singleton_self e, hwild⟩ v hx
  rw [List.mem_singleton.mp hf, hmiss] at hmatch
  cases hmatch

/-- **Whoever asks for the value of a variant is not refused it, if no parameter has two values.**
On each axis a concrete value of that kind matches itself exactly, and a list that names it at a
quality above zero does not refuse a variant with that value. Any other value does not match itself,
and a list that names nothing else refuses the variant. -/
theorem own_value_accepted (hv : AxisValue.isConcrete v = true) :
    (a.SingleValued v → AxisValue.specificity v v = some .exact ∧
      ∀ (n : Negotiator) (accepted : Preferences) (x : Variant) l q,
        x.values.get a = some v → accepted.get a = some l → ⟨v, q⟩ ∈ l → 0 < q.value.value →
          ¬ n.RefusesOn accepted x a) ∧
    (¬ a.SingleValued v → AxisValue.specificity v v = none ∧
      ∀ (n : Negotiator) (accepted : Preferences) (x : Variant) q,
        x.values.get a = some v → accepted.get a = some [⟨v, q⟩] →
          n.RefusesOn accepted x a) := by
  constructor
  · intro hsingle
    have hself := (Axis.specificity_self_iff hv).mpr hsingle
    refine ⟨hself, fun n accepted x l q hx hl he hpos => ?_⟩
    exact not_refusesOn_of_mem hx hl he hpos (Option.isSome_of_eq_some hself)
  · intro hdouble
    have hself := Axis.specificity_self_eq_none hv hdouble
    refine ⟨hself, fun n accepted x q hx hl => ?_⟩
    exact refusesOn_of_singleton hx hl (Axis.isWildcard_of_isConcrete hv) hself

end Negotiator

/-! ### Pages with two levels -/

namespace Levels

/-- The same level twice. -/
def once : MediaType :=
  MediaType.textHtml.withParameters [("level".toList, "1".toList), ("LEVEL".toList, "1".toList)]

/-- Two levels. -/
def two : MediaType :=
  MediaType.textHtml.withParameters [("level".toList, "1".toList), ("level".toList, "2".toList)]

/-- The client wants that media type, and no other. -/
def only (m : MediaType) : Preferences :=
  { Preferences.unset with mediaType := some [⟨m, .highest⟩] }

def pageOfOnce : Variant := ⟨⟨some once, none, none, none⟩, by decide⟩

def pageOfTwo : Variant := ⟨⟨some two, none, none, none⟩, by decide⟩

/-- The page of one level is not refused, the page of two is. -/
theorem own_value_of_pages :
    (AxisValue.isConcrete once = true ∧ once.SingleValued ∧ once.specificity once = some .exact ∧
      ¬ Negotiator.standard.RefusesOn (only once) pageOfOnce .mediaType) ∧
    (AxisValue.isConcrete two = true ∧ ¬ two.SingleValued ∧ two.specificity two = none ∧
      Negotiator.standard.RefusesOn (only two) pageOfTwo .mediaType) := by
  have honce : AxisValue.isConcrete once = true := by decide
  have htwo : AxisValue.isConcrete two = true := by decide
  have hsingle : once.SingleValued := by decide
  have hdouble : ¬ two.SingleValued := by decide
  have hpos : 0 < Quality.highest.value.value := Binary.value_pos_iff.mpr (by decide)
  obtain ⟨hexact, hkept⟩ := (Negotiator.own_value_accepted (a := .mediaType) honce).1 hsingle
  obtain ⟨hmiss, hrefused⟩ := (Negotiator.own_value_accepted (a := .mediaType) htwo).2 hdouble
  exact ⟨⟨honce, hsingle, hexact, hkept _ _ pageOfOnce _ _ rfl rfl List.mem_cons_self hpos⟩,
    htwo, hdouble, hmiss, hrefused _ _ pageOfTwo _ rfl rfl⟩

/-- A media type that can be read, has no wildcard and does not match itself. -/
theorem two_not_matched :
    MediaType.read "text/html;level=1;level=2".toList = some two ∧
      AxisValue.isConcrete two = true ∧ two.specificity two = none := by
  decide

end Levels

end ContentNegotiation
