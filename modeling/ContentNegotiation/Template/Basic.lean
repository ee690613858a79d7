import ContentNegotiation.Template.Pattern
import ContentNegotiation.Template.Variable

/-!
# Templates

A template is a compiled pattern: literals and variables in pattern order. The variables are copied
from the registry when the pattern is compiled, so a template stands for itself. What the engine
makes of an expression is determined by its source, which is what a template keeps of it.
-/

namespace ContentNegotiation

/-- How much of the input a template has to cover (`MatchMode`). -/
inductive Extent where
  /-- All of it. -/
  | whole
  /-- Some beginning of it. -/
  | beginning
  deriving DecidableEq, Repr

/-- A variable in its place in a pattern. -/
structure Slot where
  name : Text
  var : Variable
  deriving DecidableEq, Repr

/-- A part of a compiled pattern. -/
inductive Node where
  | literal (text : Text)
  | slot (s : Slot)
  deriving DecidableEq, Repr

/-- A compiled pattern. -/
structure Template where
  pattern : Text
  nodes : List Node
  extent : Extent
  deriving Repr

namespace Template

/-- The variable that a name refers to: the registered one, or else the default. -/
def lookUp (registry : Registry) (fallback : Option Variable) (name : Text) : Option Variable :=
  (registry.lookup name).or fallback

/-- Compiles one part of a pattern. -/
def compilePart [RegexEngine] (registry : Registry) (fallback : Option Variable) :
    Pattern.Part → Except PatternError Node
  | .literal text => .ok (.literal text)
  | .reference name =>
    match lookUp registry fallback name with
    | none => .error (.unknownVariable name)
    | some v =>
      if v.kind.compiles then .ok (.slot ⟨name, v⟩) else .error (.invalidExpression name)

/-- Compiles a pattern (`TemplateBuilder::build`). Its length is judged first, then its braces, then
its references from the left. -/
def compile [RegexEngine] (pattern : Text) (registry : Registry) (fallback : Option Variable)
    (extent : Extent) : Except PatternError Template :=
  if Pattern.maxBytes < Text.byteSize pattern then .error (.tooLong (Text.byteSize pattern))
  else do
    let parts ← Pattern.split pattern
    let nodes ← parts.mapM (compilePart registry fallback)
    return ⟨pattern, nodes, extent⟩

/-- The names of the variables in pattern order, with repetitions (`Template::variable_names`). -/
def names (t : Template) : List Text :=
  t.nodes.filterMap fun
    | .slot s => some s.name
    | .literal _ => none

/-- Templates count as equal if they are written alike and cover as much (`Template::eq`). -/
def sameAs (t u : Template) : Bool :=
  t.pattern == u.pattern && t.extent == u.extent

end Template

end ContentNegotiation
