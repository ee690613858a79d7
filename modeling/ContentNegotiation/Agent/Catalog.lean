import ContentNegotiation.Template.Match

/-!
# Catalogs of agent templates

A catalog is text with one pattern a line; blank lines and lines that start with `#` are left out.
Patterns refer to a fixed set of standard variables and have to capture the agent's name. A line
that fails is either skipped with a diagnostic, or fails the whole catalog.
-/

namespace ContentNegotiation

namespace StandardVariable

/-- The name of the product. -/
def agentName : Text := "agentName".toList
/-- The version of the product. -/
def agentVersion : Text := "agentVersion".toList
/-- The comment of the product, which may be empty. -/
def agentComment : Text := "agentComment".toList
/-- The first attribute of a comment, the operating system. -/
def agentOs : Text := "agentOs".toList
/-- Any other attribute of a comment. -/
def commentAttribute : Text := "commentAttribute".toList
/-- Anything, which may be empty. -/
def facultativeData : Text := "facultativeData".toList

/-- The variables that catalog patterns may refer to (`standard_variables`). -/
def all : Registry :=
  [(agentName, .mandatory .token), (agentVersion, .mandatory .token),
    (agentComment, .facultative .comment), (agentOs, .mandatory .commentAttribute),
    (commentAttribute, .mandatory .commentAttribute), (facultativeData, .facultative .all)]

end StandardVariable

/-- What to do with lines that fail. -/
inductive CatalogPolicy where
  /-- Leave the line out and report it. -/
  | skip
  /-- Fail the whole catalog at the first such line. -/
  | strict
  deriving DecidableEq, Repr

/-- Why a catalog line fails; lines are counted from one (`AgentError`). -/
inductive CatalogError where
  /-- The line does not compile. -/
  | pattern (line : Nat) (error : PatternError)
  /-- The line compiles but never captures the agent's name. -/
  | missingAgentName (line : Nat)
  deriving DecidableEq, Repr

/-- The wording of each cause. -/
def CatalogError.message : CatalogError → Text
  | pattern line error => place line ++ error.message
  | missingAgentName line => place line ++ "template does not capture \x7bagentName\x7d".toList
where
  place (line : Nat) : Text := "Catalog line ".toList ++ Nat.toDigits 10 line ++ ": ".toList

/-- A line that was left out (`CatalogDiagnostic`). -/
structure Diagnostic where
  /-- The number of the line, counted from one. -/
  lineNumber : Nat
  /-- The line without the blanks around it. -/
  line : Text
  error : CatalogError
  deriving DecidableEq, Repr

/-- Compiled templates and the lines that were left out, both in the order of the text
(`AgentCatalog`). -/
structure Catalog where
  templates : List Template
  diagnostics : List Diagnostic
  deriving Repr

namespace Catalog

/-- A line of a catalog text that holds a pattern. -/
structure PatternLine where
  number : Nat
  text : Text
  deriving DecidableEq, Repr

/-- The lines that hold patterns, with blanks around them removed. -/
def patternLines (text : Text) : List PatternLine :=
  ((Text.splitAll '\n' text).zipIdx 1).filterMap fun (raw, number) =>
    let line := Text.trim raw
    if line.isEmpty || line.head? = some '#' then none else some ⟨number, line⟩

/-- Compiles one line (`compile_line`). -/
def compileLine [RegexEngine] (l : PatternLine) : Except CatalogError Template :=
  match Template.compile l.text StandardVariable.all none .whole with
  | .error e => .error (.pattern l.number e)
  | .ok t =>
    if t.names.contains StandardVariable.agentName then .ok t
    else .error (.missingAgentName l.number)

/-- Compiles lines one by one under a policy. -/
def compileLines [RegexEngine] (policy : CatalogPolicy) :
    List PatternLine → Except CatalogError Catalog
  | [] => .ok ⟨[], []⟩
  | l :: ls =>
    match compileLine l with
    | .ok t => (compileLines policy ls).map fun c => { c with templates := t :: c.templates }
    | .error e =>
      match policy with
      | .strict => .error e
      | .skip => (compileLines policy ls).map fun c =>
          { c with diagnostics := ⟨l.number, l.text, e⟩ :: c.diagnostics }

/-- Compiles a catalog text (`AgentCatalog::parse`). -/
def read [RegexEngine] (text : Text) (policy : CatalogPolicy) : Except CatalogError Catalog :=
  compileLines policy (patternLines text)

end Catalog

end ContentNegotiation
