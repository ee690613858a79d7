import ContentNegotiation.Proofs.Text.Cutting

/-!
# Lines

A newline ends a line, with or without a carriage return before it, and the last line need not be
ended. Whoever trims the lines may as well split at newlines only.

* `Text.lines` — the lines of a text.
* `Text.exists_splitAll_eq` — how they differ from the pieces between newlines.
* `Text.trim_dropReturn` — a carriage return does not outlast trimming.
-/

namespace ContentNegotiation

namespace Text

/-- The text without a carriage return at its end. -/
def dropReturn (t : Text) : Text :=
  if t.getLast? = some '\r' then t.dropLast else t

/-- The lines of a text, without their ends. What follows the last newline is a line unless it is
empty, and keeps its carriage return. -/
def lines (t : Text) : List Text :=
  (splitAll '\n' t).dropLast.map dropReturn ++
    (splitAll '\n' t).getLast?.toList.filter (!·.isEmpty)

theorem trim_dropReturn (t : Text) : trim (dropReturn t) = trim t := by
  unfold dropReturn
  split
  · rename_i hlast
    obtain ⟨s, rfl⟩ := List.getLast?_eq_some_iff.mp hlast
    have hblank : ∀ c ∈ ['\r'], isBlank c = true := by
      intro c hc
      rw [List.mem_singleton.mp hc]
      decide
    rw [List.dropLast_concat, trim_append_blank hblank]
  · rfl

theorem exists_splitAll_eq (t : Text) :
    ∃ ended last, splitAll '\n' t = ended ++ [last] ∧
      lines t = ended.map dropReturn ++ [last].filter (!·.isEmpty) := by
  have hne : splitAll '\n' t ≠ [] := List.cons_ne_nil _ _
  refine ⟨_, _, (List.dropLast_concat_getLast hne).symm, ?_⟩
  rw [lines, List.getLast?_eq_some_getLast hne]
  rfl

example : lines "a\r\n\nb\r".toList = ["a".toList, [], "b\r".toList] := by decide

end Text

end ContentNegotiation
