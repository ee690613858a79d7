import ContentNegotiation.Agent.Catalog
import ContentNegotiation.Agent.Product

/-!
# Resolving agents

The templates of a catalog are tried in order, and the first one that matches an agent string
decides what is known of the agent, even if a later one would capture more.
-/

namespace ContentNegotiation

/-- What the first matching template captured (`ResolvedAgent`). -/
structure Resolution where
  /-- The main product: name, version and comment of the agent. -/
  product : Product
  /-- Every captured variable, empty ones included. -/
  attributes : Bindings
  deriving DecidableEq, Repr

namespace Resolution

/-- The value of a captured variable (`ResolvedAgent::attribute`). -/
def captured (r : Resolution) (name : Text) : Option Text :=
  r.attributes.lookup name

/-- What a match tells of an agent; `none` if the match has no name for it. -/
def ofMatch (m : TemplateMatch) : Option Resolution :=
  (m.value StandardVariable.agentName).map fun name =>
    ⟨.of name (m.value StandardVariable.agentVersion) (m.value StandardVariable.agentComment),
      m.bindings⟩

end Resolution

/-- Resolves an agent string; `none` if no template matches (`AgentResolver::resolve`). -/
def Catalog.resolve [RegexEngine] (c : Catalog) (agent : Text) : Option Resolution :=
  c.templates.findSome? fun t => (t.firstMatch agent).bind Resolution.ofMatch

end ContentNegotiation
