import ContentNegotiation.Agent.Builtin
import ContentNegotiation.Agent.Resolution
import ContentNegotiation.Negotiation.Selection

/-!
# Clients

A client is the side of a request that states preferences: its accept lists, its network addresses
and its agent string. What the agent string tells is worked out when it is first asked for and kept
until the agent changes, so reading returns the value together with the client that remembers it.
-/

namespace ContentNegotiation

/-- The client of one request (`ClientInfo`). -/
structure Client where
  preferences : Preferences
  /-- The immediate client first, and the originating one, behind proxies, last. -/
  addresses : List Text
  port : Option UInt16
  agent : Option Text
  catalog : Catalog
  /-- The resolved agent, once it was asked for. -/
  resolved : Option (Option Resolution)
  /-- The products of the agent string, once they were asked for. -/
  scanned : Option (List Product)

namespace Client

/-- A client of which nothing is known, with a catalog to resolve its agent (`with_resolver`). -/
def withCatalog (c : Catalog) : Client :=
  ⟨.unset, [], none, none, c, none, none⟩

/-- A client of which nothing is known, with the built-in catalog (`ClientInfo::new`). -/
def new [RegexEngine] : Client := withCatalog .builtin

/-- The address of the immediate client (`ClientInfo::address`). -/
def address (c : Client) : Option Text := c.addresses.head?

/-- Replaces the address of the immediate client and keeps those behind it (`set_address`). -/
def setAddress (c : Client) (a : Text) : Client :=
  { c with addresses := a :: c.addresses.tail }

/-- Appends an address. -/
def pushAddress (c : Client) (a : Text) : Client :=
  { c with addresses := c.addresses ++ [a] }

/-- Forgets all addresses. -/
def clearAddresses (c : Client) : Client :=
  { c with addresses := [] }

/-- Sets or unsets the port (`set_port`). -/
def setPort (c : Client) (port : Option UInt16) : Client :=
  { c with port }

/-- Replaces the agent string and forgets what was known of the last one (`set_agent`). -/
def setAgent (c : Client) (agent : Option Text) : Client :=
  { c with agent, resolved := none, scanned := none }

/-- Replaces the preferences of all axes (`set_preferences`). -/
def setPreferences (c : Client) (preferences : Preferences) : Client :=
  { c with preferences }

/-- What the client accepts on one axis (such as `accepted_languages`). -/
def accepted (c : Client) (a : Axis) : Option (AcceptList a.Value) :=
  c.preferences.get a

/-- Replaces or unsets what the client accepts on one axis (such as `set_accepted_languages`). -/
def setAccepted (c : Client) (a : Axis) (l : Option (AcceptList a.Value)) : Client :=
  { c with preferences := c.preferences.set a l }

/-- Changes the list of one axis (such as `accepted_languages_mut`). An unset one is empty from
then on, even if the change fails. -/
def editAccepted {ε : Type} (c : Client) (a : Axis)
    (edit : AcceptList a.Value → Except ε (AcceptList a.Value)) : Except ε Unit × Client :=
  let l := (c.accepted a).getD []
  match edit l with
  | .ok edited => (.ok (), c.setAccepted a (some edited))
  | .error e => (.error e, c.setAccepted a (some l))

/-- The same client without what was worked out from its agent string (`ClientInfo::clone`). -/
def clone (c : Client) : Client :=
  { c with resolved := none, scanned := none }

/-- What the catalog makes of the agent string, worked out at the first call (`resolved_agent`). -/
def resolution [RegexEngine] (c : Client) : Option Resolution × Client :=
  match c.resolved with
  | some r => (r, c)
  | none =>
    let r := c.agent.bind c.catalog.resolve
    (r, { c with resolved := some r })

/-- The products of the agent string, worked out at the first call (`agent_products`). -/
def products (c : Client) : List Product × Client :=
  match c.scanned with
  | some ps => (ps, c)
  | none =>
    let ps := (c.agent.map Product.readAll).getD []
    (ps, { c with scanned := some ps })

/-- The main product of the agent (`agent_main_product`). -/
def mainProduct [RegexEngine] (c : Client) : Option Product × Client :=
  (c.resolution.1.map Resolution.product, c.resolution.2)

/-- The name of the main product (`agent_name`). -/
def agentName [RegexEngine] (c : Client) : Option Text × Client :=
  (c.mainProduct.1.map Product.name, c.mainProduct.2)

/-- The version of the main product (`agent_version`). -/
def agentVersion [RegexEngine] (c : Client) : Option Text × Client :=
  (c.mainProduct.1.bind Product.version, c.mainProduct.2)

/-- Every variable that was captured from the agent string (`agent_attributes`). -/
def attributes [RegexEngine] (c : Client) : Option Bindings × Client :=
  (c.resolution.1.map Resolution.attributes, c.resolution.2)

/-- The variant that fits the client best (`preferred_variant`). -/
def select (c : Client) (n : Negotiator) (variants : List Variant)
    (language : Option LanguageTag) : Option Ranked :=
  n.select c.preferences variants language

end Client

end ContentNegotiation
