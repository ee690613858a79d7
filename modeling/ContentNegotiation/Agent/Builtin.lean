import ContentNegotiation.Agent.Catalog

/-!
# The built-in catalog

The patterns for common browsers and for agents that lead with a product token, in the order in
which they are tried. A variable that stands twice in a pattern keeps its last capture.
-/

namespace ContentNegotiation

namespace Catalog

namespace Builtin

open Pattern.Part

/-- Literal text of a pattern. -/
def lit (s : String) : Pattern.Part := literal s.toList

def name : Pattern.Part := reference StandardVariable.agentName
def version : Pattern.Part := reference StandardVariable.agentVersion
def comment : Pattern.Part := reference StandardVariable.agentComment
def os : Pattern.Part := reference StandardVariable.agentOs
def attr : Pattern.Part := reference StandardVariable.commentAttribute
def data : Pattern.Part := reference StandardVariable.facultativeData

/-- Products that hide behind a compatible `Mozilla` token. -/
def compatible : List (List Pattern.Part) := [
  [lit "Mozilla/", version, lit " (compatible; ", name, lit " ", version, lit "; ", os, lit ")"],
  [lit "Mozilla/", version, lit " (compatible; ", name, lit " ", version, lit "; ", os, lit "; ",
    comment, lit ")"],
  [lit "Mozilla/", version, lit " (compatible; ", name, lit "/", version, lit "; ", comment,
    lit ")"]]

/-- Browsers built on Gecko. -/
def gecko : List (List Pattern.Part) := [
  [lit "Mozilla/", data, lit " (", os, lit "; ", comment, lit "; rv:", attr, lit ") Gecko/",
    data, lit " ", name, lit "/", version],
  [lit "Mozilla/", data, lit " (", os, lit "; rv:", attr, lit ") Gecko/", data, lit " ", name,
    lit "/", version]]

/-- How the patterns for browsers built on WebKit or Blink begin. -/
def webKitHead : List Pattern.Part :=
  [lit "Mozilla/", data, lit " (", os, lit "; ", comment, lit ") AppleWebKit/", data]

/-- Browsers built on WebKit or Blink. Derivatives of Chromium append their own product last. -/
def webKit : List (List Pattern.Part) := [
  webKitHead ++ [lit " (KHTML, like Gecko) Chrome/", data, lit " Safari/", data, lit " ", name,
    lit "/", version],
  webKitHead ++ [lit " (KHTML, like Gecko) Version/", version, lit " Mobile/", data, lit " ", name,
    lit "/", data],
  webKitHead ++ [lit " (KHTML, like Gecko) Version/", version, lit " ", name, lit "/", data],
  webKitHead ++ [lit " (KHTML, like Gecko) ", name, lit "/", version, lit " Safari/", data],
  webKitHead ++ [lit " (KHTML, like Gecko) ", name, lit "/", version, lit " Mobile Safari/", data]]

/-- Anything else that leads with a product token. -/
def plain : List (List Pattern.Part) := [
  [name, lit "/", version, lit " (", comment, lit ") ", data],
  [name, lit "/", version, lit " (", comment, lit ")"],
  [name, lit "/", version, lit " ", data],
  [name]]

/-- All patterns in order. -/
def patterns : List (List Pattern.Part) :=
  compatible ++ gecko ++ webKit ++ plain

/-- The text of the catalog. -/
def text : Text :=
  Text.join ['\n'] (patterns.map fun p => (p.map Pattern.Part.render).flatten)

end Builtin

/-- The catalog that is used where none is configured (`AgentCatalog::builtin`). -/
def builtin [RegexEngine] : Catalog :=
  match read Builtin.text .skip with
  | .ok c => c
  | .error _ => ⟨[], []⟩

end Catalog

end ContentNegotiation
