import ContentNegotiation.Client
import ContentNegotiation.Proofs.Template.Match
import ContentNegotiation.Regex.Parser

/-!
# What a client remembers

A client remembers what it worked out from its agent string. Whatever is done to it, in whatever
order, it never tells more or less than one that works everything out anew.

* `Client.Operation` — what can be done to a client, asking included.
* `Client.Coherent` — what is remembered is what the agent string tells now.
* `Client.perform_clone` — a coherent client does as its clone, which remembers nothing.
* `Client.trace_eq_of_clone_eq` — so the clone is all that any later answer depends on.

Principal result: `Client.run_coherent`.
-/

namespace ContentNegotiation

/-- What an agent string tells of the software that sent it. -/
structure AgentData where
  mainProduct : Option Product
  name : Option Text
  version : Option Text
  attributes : Option Bindings
  products : List Product

/-- What a catalog and the scan for products make of an agent string; nothing where there is
none. -/
def AgentData.ofAgent [RegexEngine] (catalog : Catalog) (agent : Option Text) : AgentData where
  mainProduct := (agent.bind catalog.resolve).map (·.product)
  name := (agent.bind catalog.resolve).map (·.product.name)
  version := (agent.bind catalog.resolve).bind (·.product.version)
  attributes := (agent.bind catalog.resolve).map (·.attributes)
  products := (agent.map Product.readAll).getD []

namespace Client

/-! ## Operations -/

/-- What a client can be asked. -/
inductive Question where
  | agent
  | address
  | addresses
  | port
  | accepted (axis : Axis)
  | mainProduct
  | agentName
  | agentVersion
  | attributes
  | products
  | selection (n : Negotiator) (variants : List Variant) (language : Option LanguageTag)

/-- What is done to a client. -/
inductive Operation where
  | ask (q : Question)
  | setAgent (agent : Option Text)
  | setAddress (address : Text)
  | pushAddress (address : Text)
  | clearAddresses
  | setPort (port : Option UInt16)
  | setPreferences (preferences : Preferences)
  | setAccepted (axis : Axis) (list : Option (AcceptList axis.Value))
  | editAccepted (axis : Axis)
      (edit : AcceptList axis.Value → Except PreferenceError (AcceptList axis.Value))
  | clone

/-- What comes back. -/
inductive Reply where
  | done
  | failed (e : PreferenceError)
  | text (t : Option Text)
  | texts (ts : List Text)
  | port (p : Option UInt16)
  | accepted (axis : Axis) (list : Option (AcceptList axis.Value))
  | product (p : Option Product)
  | attributes (bs : Option Bindings)
  | products (ps : List Product)
  | selected (r : Option Ranked)

/-- What comes back from a change that may fail. -/
def Reply.ofEdit : Except PreferenceError Unit → Reply
  | .ok () => .done
  | .error e => .failed e

/-- The answer to a question, and the client that may remember what it took. -/
def ask [RegexEngine] (c : Client) : Question → Reply × Client
  | .agent => (.text c.agent, c)
  | .address => (.text c.address, c)
  | .addresses => (.texts c.addresses, c)
  | .port => (.port c.port, c)
  | .accepted axis => (.accepted axis (c.accepted axis), c)
  | .mainProduct => (.product c.mainProduct.1, c.mainProduct.2)
  | .agentName => (.text c.agentName.1, c.agentName.2)
  | .agentVersion => (.text c.agentVersion.1, c.agentVersion.2)
  | .attributes => (.attributes c.attributes.1, c.attributes.2)
  | .products => (.products c.products.1, c.products.2)
  | .selection n variants language => (.selected (c.select n variants language), c)

/-- What comes back from an operation, and the client after it. After cloning it is the clone. -/
def perform [RegexEngine] (c : Client) : Operation → Reply × Client
  | .ask q => c.ask q
  | .setAgent agent => (.done, c.setAgent agent)
  | .setAddress address => (.done, c.setAddress address)
  | .pushAddress address => (.done, c.pushAddress address)
  | .clearAddresses => (.done, c.clearAddresses)
  | .setPort port => (.done, c.setPort port)
  | .setPreferences preferences => (.done, c.setPreferences preferences)
  | .setAccepted axis list => (.done, c.setAccepted axis list)
  | .editAccepted axis edit =>
    (.ofEdit (c.editAccepted axis edit).1, (c.editAccepted axis edit).2)
  | .clone => (.done, c.clone)

/-- The client after a run of operations. -/
def run [RegexEngine] (c : Client) (ops : List Operation) : Client :=
  ops.foldl (fun c op => (c.perform op).2) c

/-- All that comes back in a run of operations. -/
def trace [RegexEngine] (c : Client) : List Operation → List Reply
  | [] => []
  | op :: ops => (c.perform op).1 :: (c.perform op).2.trace ops

/-- The agent string after an operation. -/
def Operation.agentAfter (before : Option Text) : Operation → Option Text
  | setAgent agent => agent
  | _ => before

/-- The agent string that a run of operations set last. -/
def lastAgent (ops : List Operation) : Option Text :=
  ops.foldl Operation.agentAfter none

/-- What the client tells of its agent. -/
def agentData [RegexEngine] (c : Client) : AgentData where
  mainProduct := c.mainProduct.1
  name := c.agentName.1
  version := c.agentVersion.1
  attributes := c.attributes.1
  products := c.products.1

/-! ## Coherence -/

/-- What is remembered is what the agent string tells now. -/
structure Coherent [RegexEngine] (c : Client) : Prop where
  resolved : ∀ r, c.resolved = some r → r = c.agent.bind c.catalog.resolve
  scanned : ∀ ps, c.scanned = some ps → ps = (c.agent.map Product.readAll).getD []

section Coherent

variable [RegexEngine] {c d : Client}

/-- A client that remembers nothing is coherent. -/
theorem coherent_of_none (hresolved : c.resolved = none) (hscanned : c.scanned = none) :
    c.Coherent := by
  constructor
  · rintro r h
    cases hresolved.symm.trans h
  · rintro ps h
    cases hscanned.symm.trans h

theorem coherent_withCatalog (k : Catalog) : (withCatalog k).Coherent :=
  coherent_of_none rfl rfl

theorem coherent_clone (c : Client) : c.clone.Coherent :=
  coherent_of_none rfl rfl

/-- Data that have nothing to do with the agent may change. -/
theorem Coherent.congr (h : c.Coherent) (hagent : d.agent = c.agent)
    (hcatalog : d.catalog = c.catalog) (hresolved : d.resolved = c.resolved)
    (hscanned : d.scanned = c.scanned) : d.Coherent := by
  constructor
  · rw [hagent, hcatalog, hresolved]
    exact h.resolved
  · rw [hagent, hscanned]
    exact h.scanned

theorem Coherent.resolution_fst (h : c.Coherent) :
    c.resolution.1 = c.agent.bind c.catalog.resolve := by
  unfold resolution
  split
  · rename_i r hr
    exact h.resolved r hr
  · rfl

theorem Coherent.resolution_snd (h : c.Coherent) : c.resolution.2.Coherent := by
  unfold resolution
  split
  · exact h
  · constructor
    · rintro r ⟨⟩
      rfl
    · exact h.scanned

theorem Coherent.products_fst (h : c.Coherent) :
    c.products.1 = (c.agent.map Product.readAll).getD [] := by
  unfold products
  split
  · rename_i ps hps
    exact h.scanned ps hps
  · rfl

theorem Coherent.products_snd (h : c.Coherent) : c.products.2.Coherent := by
  unfold products
  split
  · exact h
  · constructor
    · exact h.resolved
    · rintro ps ⟨⟩
      rfl

theorem clone_resolution (c : Client) : c.resolution.2.clone = c.clone := by
  unfold resolution
  split
  · rfl
  · rfl

omit [RegexEngine] in
theorem clone_products (c : Client) : c.products.2.clone = c.clone := by
  unfold products
  split
  · rfl
  · rfl

/-- **What a coherent client tells of its agent is what the agent string tells.** -/
theorem Coherent.agentData_eq (h : c.Coherent) : c.agentData = .ofAgent c.catalog c.agent := by
  simp only [agentData, AgentData.ofAgent, agentName, agentVersion, mainProduct, attributes,
    h.resolution_fst, h.products_fst]
  cases c.agent.bind c.catalog.resolve with
  | none => rfl
  | some r => rfl

/-! ## One operation -/

/-- A question leaves nothing behind but what is remembered. -/
theorem clone_ask (c : Client) (q : Question) : (c.ask q).2.clone = c.clone := by
  cases q with
  | mainProduct => exact clone_resolution c
  | agentName => exact clone_resolution c
  | agentVersion => exact clone_resolution c
  | attributes => exact clone_resolution c
  | products => exact clone_products c
  | _ => rfl

theorem Coherent.ask (h : c.Coherent) (q : Question) : (c.ask q).2.Coherent := by
  cases q with
  | mainProduct => exact h.resolution_snd
  | agentName => exact h.resolution_snd
  | agentVersion => exact h.resolution_snd
  | attributes => exact h.resolution_snd
  | products => exact h.products_snd
  | _ => exact h

theorem Coherent.ask_fst (h : c.Coherent) (q : Question) : (c.ask q).1 = (c.clone.ask q).1 := by
  have hresolution : c.resolution.1 = c.clone.resolution.1 := h.resolution_fst
  have hproducts : c.products.1 = c.clone.products.1 := h.products_fst
  cases q with
  | mainProduct => simp only [Client.ask, mainProduct, hresolution]
  | agentName => simp only [Client.ask, agentName, mainProduct, hresolution]
  | agentVersion => simp only [Client.ask, agentVersion, mainProduct, hresolution]
  | attributes => simp only [Client.ask, attributes, hresolution]
  | products => simp only [Client.ask, hproducts]
  | _ => rfl

omit [RegexEngine] in
theorem editAccepted_clone (c : Client) (a : Axis)
    (edit : AcceptList a.Value → Except PreferenceError (AcceptList a.Value)) :
    (c.editAccepted a edit).1 = (c.clone.editAccepted a edit).1 ∧
      (c.editAccepted a edit).2.clone = (c.clone.editAccepted a edit).2.clone := by
  rw [editAccepted, editAccepted, show c.clone.accepted a = c.accepted a from rfl]
  cases edit ((c.accepted a).getD []) with
  | ok edited => exact ⟨rfl, rfl⟩
  | error e => exact ⟨rfl, rfl⟩

/-- A change of one list changes nothing but the preferences, even if it fails. -/
theorem exists_perform_editAccepted_eq (c : Client) (a : Axis)
    (edit : AcceptList a.Value → Except PreferenceError (AcceptList a.Value)) :
    ∃ preferences, (c.perform (.editAccepted a edit)).2 = { c with preferences } := by
  simp only [Client.perform, editAccepted]
  cases edit ((c.accepted a).getD []) with
  | ok edited => exact ⟨_, rfl⟩
  | error e => exact ⟨_, rfl⟩

/-- **Every operation keeps a client coherent.** -/
theorem Coherent.perform (h : c.Coherent) (op : Operation) : (c.perform op).2.Coherent := by
  cases op with
  | ask q => exact h.ask q
  | setAgent agent => exact coherent_of_none rfl rfl
  | editAccepted a edit =>
      obtain ⟨preferences, hedited⟩ := exists_perform_editAccepted_eq c a edit
      rw [hedited]
      exact h.congr rfl rfl rfl rfl
  | clone => exact coherent_clone c
  | _ => exact h.congr rfl rfl rfl rfl

/-- **A coherent client does as its clone**, which remembers nothing: the same comes back, and what
they become differs in nothing but what is remembered. -/
theorem Coherent.perform_clone (h : c.Coherent) (op : Operation) :
    (c.perform op).1 = (c.clone.perform op).1 ∧
      (c.perform op).2.clone = (c.clone.perform op).2.clone := by
  cases op with
  | ask q => exact ⟨h.ask_fst q, (clone_ask c q).trans (clone_ask c.clone q).symm⟩
  | editAccepted a edit =>
      obtain ⟨hreply, hclone⟩ := editAccepted_clone c a edit
      exact ⟨congrArg Reply.ofEdit hreply, hclone⟩
  | _ => exact ⟨rfl, rfl⟩

/-- Nothing but setting it changes the agent string, and nothing changes the catalog. -/
theorem agent_perform (c : Client) (op : Operation) :
    (c.perform op).2.agent = op.agentAfter c.agent ∧ (c.perform op).2.catalog = c.catalog := by
  cases op with
  | ask q =>
      have hagent := congrArg Client.agent (clone_ask c q)
      have hcatalog := congrArg Client.catalog (clone_ask c q)
      exact ⟨hagent, hcatalog⟩
  | editAccepted a edit =>
      obtain ⟨preferences, hedited⟩ := exists_perform_editAccepted_eq c a edit
      rw [hedited]
      exact ⟨rfl, rfl⟩
  | _ => exact ⟨rfl, rfl⟩

/-! ## Runs of operations -/

theorem Coherent.run (h : c.Coherent) (ops : List Operation) :
    (c.run ops).Coherent ∧ (c.run ops).agent = ops.foldl Operation.agentAfter c.agent ∧
      (c.run ops).catalog = c.catalog := by
  induction ops generalizing c with
  | nil => exact ⟨h, rfl, rfl⟩
  | cons op ops ih =>
      obtain ⟨hagent, hcatalog⟩ := agent_perform c op
      obtain ⟨hcoherent, hagents, hcatalogs⟩ := ih (h.perform op)
      rw [hagent] at hagents
      rw [hcatalog] at hcatalogs
      exact ⟨hcoherent, hagents, hcatalogs⟩

/-- **Nothing that ever comes back depends on what is remembered.** -/
theorem trace_eq_of_clone_eq (hc : c.Coherent) (hd : d.Coherent) (h : c.clone = d.clone)
    (ops : List Operation) : c.trace ops = d.trace ops := by
  induction ops generalizing c d with
  | nil => rfl
  | cons op ops ih =>
      obtain ⟨hreply, hclone⟩ := hc.perform_clone op
      obtain ⟨hreply', hclone'⟩ := hd.perform_clone op
      rw [h] at hreply hclone
      have hrest := ih (hc.perform op) (hd.perform op) (hclone.trans hclone'.symm)
      rw [trace, trace, hreply.trans hreply'.symm, hrest]

end Coherent

/-- **What a client tells of its agent is up to date after every run of operations.** It is what the
catalog and the scan make of the agent string that was set last; no question changes anything that
comes back later, only setting the agent changes what is told of it, and a clone does as the client
would have done. -/
theorem run_coherent [RegexEngine] (k : Catalog) (ops : List Operation) :
    ((withCatalog k).run ops).agentData = .ofAgent k (lastAgent ops) ∧
    (∀ q later, (((withCatalog k).run ops).ask q).2.trace later =
      ((withCatalog k).run ops).trace later) ∧
    (∀ op, (∀ agent, op ≠ .setAgent agent) →
      (((withCatalog k).run ops).perform op).2.agentData =
        ((withCatalog k).run ops).agentData) ∧
    ∀ later, ((withCatalog k).run ops).clone.trace later =
      ((withCatalog k).run ops).trace later := by
  obtain ⟨hcoherent, hagent, hcatalog⟩ := (coherent_withCatalog k).run ops
  generalize (withCatalog k).run ops = c at hcoherent hagent hcatalog
  refine ⟨?_, ?_, ?_, ?_⟩
  · rw [hcoherent.agentData_eq, hagent, hcatalog]
    rfl
  · exact fun q => trace_eq_of_clone_eq (hcoherent.ask q) hcoherent (clone_ask c q)
  · intro op hop
    have hkept : op.agentAfter c.agent = c.agent := by
      cases op with
      | setAgent agent => exact absurd rfl (hop agent)
      | _ => rfl
    obtain ⟨hagent', hcatalog'⟩ := agent_perform c op
    rw [(hcoherent.perform op).agentData_eq, hcoherent.agentData_eq, hagent', hcatalog', hkept]
  · exact trace_eq_of_clone_eq (coherent_clone c) hcoherent rfl

attribute [local instance] Regex.engine

/-- A catalog of one template, a name and a version with a colon between them. -/
def probeCatalog : Catalog :=
  ⟨[⟨"\x7bagentName\x7d:\x7bagentVersion\x7d".toList,
    [.slot ⟨StandardVariable.agentName, .mandatory .token⟩, .literal [':'],
      .slot ⟨StandardVariable.agentVersion, .mandatory .token⟩], .whole⟩], []⟩

/-- The agent is replaced after all of the first one was asked for. -/
def replacement : List Operation :=
  [.setAgent (some "curl/8.4.0".toList), .ask .agentName, .ask .products, .clone,
    .setAgent (some "probe:7".toList), .ask .attributes]

theorem replacement_coherent :
    (∀ agent, Operation.setPort (some 8443) ≠ .setAgent agent) ∧
      (((withCatalog probeCatalog).run replacement).perform (.setPort (some 8443))).2.agentData =
        ⟨some ⟨"probe".toList, some ['7'], none⟩, some "probe".toList, some ['7'],
          some [(StandardVariable.agentVersion, ['7']),
            (StandardVariable.agentName, "probe".toList)],
          [⟨"probe".toList, none, none⟩, ⟨['7'], none, none⟩]⟩ := by
  have hport : ∀ agent, Operation.setPort (some 8443) ≠ .setAgent agent := by
    rintro agent ⟨⟩
  have hresolve : probeCatalog.resolve "probe:7".toList =
      some ⟨⟨"probe".toList, some ['7'], none⟩, [(StandardVariable.agentVersion, ['7']),
        (StandardVariable.agentName, "probe".toList)]⟩ := by
    rw [Catalog.resolve, probeCatalog, List.findSome?_cons, Template.firstMatch_eq]
    decide +kernel
  have hproducts : Product.readAll "probe:7".toList =
      [⟨"probe".toList, none, none⟩, ⟨['7'], none, none⟩] := by
    decide +kernel
  obtain ⟨hdata, -, hkept, -⟩ := run_coherent probeCatalog replacement
  have hlast : lastAgent replacement = some "probe:7".toList := rfl
  refine ⟨hport, ?_⟩
  rw [hkept _ hport, hdata, hlast]
  simp only [AgentData.ofAgent, Option.bind_some, hresolve, Option.map_some, Option.getD_some,
    hproducts]

end Client

end ContentNegotiation
