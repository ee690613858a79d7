import ContentNegotiation.Proofs.Traversal
import ContentNegotiation.Template.Basic

/-!
# What a pattern compiles to

A pattern of at most `Pattern.maxBytes` bytes is split into parts, and each part is compiled on its
own.

`Template.compile_eq_ok_iff` says all there is to say of success, so nothing after it opens the
compiler.

Principal results: `Template.variable_of_compile` (each variable of a template is the one
that its name refers to) and `Template.compile_extent` (what a template has to cover does not matter
for whether and to which nodes it compiles).
-/

namespace ContentNegotiation

namespace Template

variable [RegexEngine] {pattern : Text} {registry : Registry} {fallback : Option Variable}
  {extent : Extent} {t : Template}

theorem compile_eq_ok_iff :
    compile pattern registry fallback extent = .ok t ↔
      Text.byteSize pattern ≤ Pattern.maxBytes ∧ t.pattern = pattern ∧ t.extent = extent ∧
        ∃ parts, Pattern.split pattern = .ok parts ∧
          parts.mapM (compilePart registry fallback) = .ok t.nodes := by
  unfold compile
  by_cases hlong : Pattern.maxBytes < Text.byteSize pattern
  · rw [if_pos hlong]
    refine iff_of_false (fun h => nomatch h) ?_
    rintro ⟨hle, -⟩
    omega
  · rw [if_neg hlong]
    cases hparts : Pattern.split pattern with
    | error e => simp [bind, Except.bind]
    | ok parts =>
        simp only [bind, Except.bind, Except.ok.injEq]
        constructor
        · intro h
          split at h
          · cases h
          · rename_i nodes hnodes
            cases h
            exact ⟨Nat.not_lt.mp hlong, rfl, rfl, parts, rfl, hnodes⟩
        · rintro ⟨-, rfl, rfl, _, rfl, hnodes⟩
          rw [hnodes]
          rfl

/-- What a template has to cover does not matter for whether and to which nodes it compiles. -/
theorem compile_extent (h : compile pattern registry fallback extent = .ok t) (other : Extent) :
    compile pattern registry fallback other = .ok { t with extent := other } := by
  obtain ⟨hlong, hpattern, -, hparts⟩ := compile_eq_ok_iff.mp h
  exact compile_eq_ok_iff.mpr ⟨hlong, hpattern, rfl, hparts⟩

theorem compilePart_eq_slot_iff {part : Pattern.Part} {s : Slot} :
    compilePart registry fallback part = .ok (.slot s) ↔
      part = .reference s.name ∧ lookUp registry fallback s.name = some s.var ∧
        s.var.kind.compiles = true := by
  cases part with
  | literal text => simp [compilePart]
  | reference name =>
      rw [compilePart]
      constructor
      · intro h
        split at h
        · cases h
        · rename_i v hv
          split at h
          · rename_i hcompiles
            cases h
            exact ⟨rfl, hv, hcompiles⟩
          · cases h
      · rintro ⟨⟨rfl⟩, hv, hcompiles⟩
        simp only [hv, hcompiles, if_true]

/-- **Each variable of a template is the one that its name refers to.** -/
theorem variable_of_compile (h : compile pattern registry fallback extent = .ok t)
    {s : Slot} (hs : .slot s ∈ t.nodes) :
    lookUp registry fallback s.name = some s.var ∧ s.var.kind.compiles = true := by
  obtain ⟨-, -, -, parts, -, hnodes⟩ := compile_eq_ok_iff.mp h
  obtain ⟨part, -, hpart⟩ := exists_of_mapM_eq_ok hnodes hs
  exact (compilePart_eq_slot_iff.mp hpart).2

end Template

end ContentNegotiation
