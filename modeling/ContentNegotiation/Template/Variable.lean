import ContentNegotiation.Regex.Engine
import ContentNegotiation.Text.Character

/-!
# Template variables

A variable says what a `{name}` placeholder may capture: its kind selects a grammar, and a
facultative variable may also capture nothing. A custom variable has the source of a regular
expression, which is left to an engine.
-/

namespace ContentNegotiation

/-- The grammar of what a variable captures (`VariableKind`). -/
inductive Kind where
  /-- Any characters. -/
  | all
  /-- ASCII letters. -/
  | alpha
  /-- ASCII letters and digits. -/
  | alphaDigit
  /-- Text without controls, in which parentheses are balanced. -/
  | comment
  /-- Text without controls, parentheses and semicolons. -/
  | commentAttribute
  /-- ASCII digits. -/
  | digit
  /-- Characters of an HTTP token. -/
  | token
  /-- Characters of one segment of a path. -/
  | uriSegment
  /-- Text in which an expression, tied to both ends, is found. -/
  | custom (source : Text)
  deriving DecidableEq, Repr

/-- What may stand in a path segment besides letters and digits. -/
def segmentPunctuation : List Char := "-._~%!$&'()*+,;=:@".toList

namespace Kind

/-- Whether a character may stand in a text of this kind (`VariableKind::accepts`). A custom
expression judges whole texts only, so it admits every character. -/
def accepts : Kind → Char → Bool
  | all, _ => true
  | custom _, _ => true
  | alpha, c => c.isAlpha
  | alphaDigit, c => c.isAlphanum
  | digit, c => c.isDigit
  | token, c => isTokenChar c
  | comment, c => !isControl c || c == '\t'
  | commentAttribute, c => !isControl c && c != '(' && c != ')' && c != ';'
  | uriSegment, c => c.isAlphanum || segmentPunctuation.contains c

/-- No restriction at all (`is_unconstrained`). -/
def isUnconstrained : Kind → Bool
  | all => true
  | _ => false

/-- The expression of a custom kind can be compiled; other kinds have none. -/
def compiles [RegexEngine] : Kind → Bool
  | custom source => (RegexEngine.compileTied source).isSome
  | _ => true

end Kind

/-- What a placeholder may capture. -/
structure Variable where
  kind : Kind
  /-- The captured text must not be empty. -/
  required : Bool
  /-- What a facultative variable is bound to where it captures nothing. -/
  defaultValue : Option Text
  deriving DecidableEq, Repr

namespace Variable

/-- A variable that must capture something (`Variable::new`). -/
def mandatory (kind : Kind) : Variable := ⟨kind, true, none⟩

/-- A variable that may capture nothing (`Variable::facultative`). -/
def facultative (kind : Kind) : Variable := ⟨kind, false, none⟩

/-- The value of an empty capture. -/
def emptyValue (v : Variable) : Text := v.defaultValue.getD []

end Variable

/-- Named variables that patterns may refer to. An earlier entry hides later ones of its name. -/
abbrev Registry := List (Text × Variable)

namespace Registry

/-- Adds an entry, which replaces any other of its name (`TemplateBuilder::variable`). -/
def register (r : Registry) (name : Text) (v : Variable) : Registry :=
  (name, v) :: r

end Registry

end ContentNegotiation
