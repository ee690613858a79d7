import ContentNegotiation.Agent.Builtin
import ContentNegotiation.Agent.Resolution
import ContentNegotiation.Config.Decode
import ContentNegotiation.Negotiation.Settings

/-!
# Configuration

The settings of the negotiation can be read from a document of their own, and those of the whole
library from one with a table for each part. Every key has a default. Files are given as a function
from paths to contents, which is undefined where there is no file or no text in it.
-/

namespace ContentNegotiation

namespace Config

/-- The fields of the weights. -/
def weightFields : List (Text × Decode.Field Weights) :=
  [(Axis.mediaType.key, Decode.field Decode.single fun x w => { w with mediaType := x }),
    (Axis.language.key, Decode.field Decode.single fun x w => { w with language := x }),
    (Axis.charset.key, Decode.field Decode.single fun x w => { w with charset := x }),
    (Axis.coding.key, Decode.field Decode.single fun x w => { w with coding := x })]

/-- The fields of the negotiation settings. -/
def settingsFields : List (Text × Decode.Field Settings) :=
  [("weights".toList, Decode.field (Decode.record weightFields · Weights.standard)
      fun w s => { s with weights := w }),
    ("default_language".toList, Decode.field Decode.language
      fun l s => { s with defaultLanguage := some l })]

/-- How agent strings are resolved. -/
structure AgentSettings where
  /-- The path of the catalog; the built-in one is used where there is none. -/
  catalog : Option Text
  policy : CatalogPolicy
  deriving DecidableEq, Repr

/-- The settings that hold where nothing is configured. -/
def AgentSettings.standard : AgentSettings := ⟨none, .skip⟩

/-- A policy by its name. -/
def policy (v : Toml.Value) : Except DocumentError CatalogPolicy := do
  let name ← Decode.choice v
  if name = "skip".toList then .ok .skip
  else if name = "strict".toList then .ok .strict
  else .error .mismatch

/-- The fields of the agent settings. -/
def agentFields : List (Text × Decode.Field AgentSettings) :=
  [("catalog".toList, Decode.field Decode.text fun p s => { s with catalog := some p }),
    ("policy".toList, Decode.field policy fun p s => { s with policy := p })]

end Config

/-- Settings of the whole library (`ConnegSettings`). -/
structure Configuration where
  negotiation : Settings
  agent : Config.AgentSettings

/-- Why settings cannot be had. -/
inductive ConfigError where
  /-- The file is missing or holds no text. -/
  | unreadable
  /-- The document cannot be used. -/
  | document (error : DocumentError)
  /-- The negotiation settings are at fault. -/
  | negotiation (error : SettingsError)
  deriving DecidableEq, Repr

/-- The wording of each cause that has one. -/
def ConfigError.message : ConfigError → Option Text
  | unreadable => none
  | document error => error.message
  | negotiation error => some ("Negotiation settings error: ".toList ++ error.message)

/-- Reads a document into a record and its defaults. -/
def Config.decode {σ : Type} (fields : List (Text × Decode.Field σ)) (standard : σ)
    (document : Text) : Except DocumentError σ :=
  match Toml.read document with
  | none => .error .malformed
  | some v => Decode.record fields v standard

/-- Reads the negotiation settings from a document of their own, without judging them
(`NegotiationSettings::from_toml_str`). -/
def Settings.ofDocument (document : Text) : Except DocumentError Settings :=
  Config.decode Config.settingsFields Settings.standard document

namespace Configuration

/-- The settings that hold where nothing is configured. -/
def standard : Configuration := ⟨Settings.standard, Config.AgentSettings.standard⟩

/-- The fields of a configuration. -/
def fields : List (Text × Decode.Field Configuration) :=
  [("negotiation".toList, Decode.field
      (Decode.record Config.settingsFields · Settings.standard)
      fun s c => { c with negotiation := s }),
    ("agent".toList, Decode.field
      (Decode.record Config.agentFields · Config.AgentSettings.standard)
      fun s c => { c with agent := s })]

/-- Reads a configuration from a document and judges its negotiation settings
(`ConnegSettings::from_toml_str`). -/
def read (document : Text) : Except ConfigError Configuration :=
  match Config.decode fields standard document with
  | .error e => .error (.document e)
  | .ok c =>
    match c.negotiation.firstFault with
    | some e => .error (.negotiation e)
    | none => .ok c

/-- Reads a configuration file, given its content (`ConnegSettings::from_path`). -/
def ofFile (content : Option Text) : Except ConfigError Configuration :=
  match content with
  | none => .error .unreadable
  | some document => read document

/-- The negotiator of the configuration, whose settings may have been changed since it was read
(`ConnegSettings::negotiator`). -/
def negotiator (c : Configuration) : Except ConfigError Negotiator :=
  (Negotiator.ofSettings c.negotiation).mapError .negotiation

end Configuration

/-- Why the catalog of a configuration cannot be had. -/
inductive CatalogLoadError where
  /-- The file is missing or holds no text. -/
  | unreadable
  /-- A line fails under the strict policy. -/
  | line (error : CatalogError)
  deriving DecidableEq, Repr

/-- The catalog of a configuration: the configured file under the configured policy, or else the
built-in catalog (`AgentCatalog::from_settings`). -/
def Configuration.catalog [RegexEngine] (c : Configuration) (files : Text → Option Text) :
    Except CatalogLoadError Catalog :=
  match c.agent.catalog with
  | none => .ok .builtin
  | some path =>
    match files path with
    | none => .error .unreadable
    | some content => (Catalog.read content c.agent.policy).mapError .line

end ContentNegotiation
