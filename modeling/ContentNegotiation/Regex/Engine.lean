import ContentNegotiation.Text.Basic

/-!
# Engines for regular expressions

Custom variables leave their expressions to an engine. Two things are asked of it: whether a text is
the source of an expression, and whether an expression is found in a text. The engine is a parameter
of whatever compiles or matches a template.
-/

namespace ContentNegotiation

/-- An engine for regular expressions. -/
class RegexEngine where
  /-- Compiled expressions. -/
  Expression : Type
  /-- Compiles the source of an expression; `none` if the text is no expression (`Regex::new`). -/
  compile : Text → Option Expression
  /-- The expression matches some part of the text (`Regex::is_match`). -/
  isMatch : Expression → Text → Bool

namespace RegexEngine

/-- The source in a group between the start and the end of a text. It is pasted as it stands, so a
source that closes the group and opens another one is only tied in parts. -/
def tied (source : Text) : Text :=
  "^(?:".toList ++ source ++ ")$".toList

/-- Compiles a source with both of its ends tied (`compile_custom`). -/
def compileTied [RegexEngine] (source : Text) : Option Expression :=
  compile (tied source)

end RegexEngine

end ContentNegotiation
