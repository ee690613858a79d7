import ContentNegotiation.Axis.Name
import ContentNegotiation.Proofs.Text.Case

/-!
# Printed names

A character set or a content coding is made from any name, but only tokens can be read.

* `AliasTable` — what the two tables of other spellings have in common.
* `NameAxis` — what the two axes have in common.

Principal result: `NameAxis.read_print_ofName` (the value that is made from a name is read back from
its printed form if the name is a token).
-/

namespace ContentNegotiation

/-- Both spellings are tokens, and a registered name stands for itself. -/
structure AliasTable (aliases : List (Text × Text)) : Prop where
  spelling : ∀ a ∈ aliases, a.1.isToken = true
  registered : ∀ a ∈ aliases, a.2.isToken = true
  stable : ∀ a ∈ aliases, canonicalName aliases a.2 = a.2

section Canonical

variable {aliases : List (Text × Text)} {name : Text}

theorem canonicalName_cases (aliases : List (Text × Text)) (name : Text) :
    (∃ a ∈ aliases, a.1 = Text.lower (Text.trim name) ∧ canonicalName aliases name = a.2) ∨
      aliases.lookup (Text.lower (Text.trim name)) = none ∧
        canonicalName aliases name = Text.lower (Text.trim name) := by
  cases hl : aliases.lookup (Text.lower (Text.trim name)) with
  | none => exact .inr ⟨rfl, by simp [canonicalName, hl]⟩
  | some v =>
      obtain ⟨before, after, rfl, -⟩ := List.lookup_eq_some_iff.mp hl
      exact .inl ⟨(Text.lower (Text.trim name), v), by simp, rfl, by simp [canonicalName, hl]⟩

theorem isToken_canonicalName (h : AliasTable aliases) (name : Text) :
    (canonicalName aliases name).isToken = (Text.trim name).isToken := by
  rcases canonicalName_cases aliases name with ⟨a, ha, halias, heq⟩ | ⟨-, heq⟩
  · have htoken := h.spelling a ha
    rw [halias, Text.isToken_lower] at htoken
    rw [heq, h.registered a ha, htoken]
  · rw [heq, Text.isToken_lower]

theorem trim_canonicalName (h : AliasTable aliases) (name : Text) :
    (canonicalName aliases name).trim = canonicalName aliases name := by
  rcases canonicalName_cases aliases name with ⟨a, ha, -, heq⟩ | ⟨-, heq⟩
  · rw [heq, (Text.trimmed_of_isToken (h.registered a ha)).trim]
  · rw [heq, (Text.trimmed_trim name).lower.trim]

theorem canonicalName_canonicalName (h : AliasTable aliases) (name : Text) :
    canonicalName aliases (canonicalName aliases name) = canonicalName aliases name := by
  rcases canonicalName_cases aliases name with ⟨a, ha, -, heq⟩ | ⟨hnone, heq⟩
  · rw [heq, h.stable a ha]
  · have htrim := trim_canonicalName h name
    rw [heq] at htrim ⊢
    simp [canonicalName, htrim, Text.lower_lower, hnone]

end Canonical

/-- An axis of names: what is read or printed is the canonical name under a table of other
spellings, and the value is determined by it. -/
structure NameAxis (α : Type) [AxisValue α] (aliases : List (Text × Text)) (ofName : Text → α) :
    Prop where
  table : AliasTable aliases
  read_eq : ∀ t, AxisValue.read t = if (Text.trim t).isToken then some (ofName t) else none
  print_ofName : ∀ name, AxisValue.print (ofName name) = canonicalName aliases name
  determined : ∀ {name other}, canonicalName aliases name = canonicalName aliases other →
    ofName name = ofName other

/-- **The value that is made from a name is read back** from its printed form if the name is a
token, and nothing is read otherwise. -/
theorem NameAxis.read_print_ofName {α : Type} [AxisValue α] {aliases : List (Text × Text)}
    {ofName : Text → α} (h : NameAxis α aliases ofName) (name : Text) :
    AxisValue.read (AxisValue.print (ofName name)) =
      if (Text.trim name).isToken then some (ofName name) else none := by
  rw [h.print_ofName, h.read_eq, trim_canonicalName h.table, isToken_canonicalName h.table,
    h.determined (canonicalName_canonicalName h.table name)]

theorem Charset.nameAxis : NameAxis Charset aliases ofName where
  table := by constructor <;> decide
  read_eq _ := rfl
  print_ofName _ := rfl
  determined := congrArg mk

theorem ContentCoding.nameAxis : NameAxis ContentCoding aliases ofName where
  table := by constructor <;> decide
  read_eq _ := rfl
  print_ofName _ := rfl
  determined := congrArg mk

end ContentNegotiation
