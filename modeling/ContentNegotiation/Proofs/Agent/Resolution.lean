import ContentNegotiation.Agent.Resolution
import ContentNegotiation.Proofs.Agent.Catalog
import ContentNegotiation.Proofs.Agent.Plain
import ContentNegotiation.Regex.Parser

/-!
# What a resolved agent says

The first template of a catalog that matches an agent decides what is known of it.  Each value that
it binds was captured from the agent by a standard variable, so its grammar is known from its name,
whatever the catalog.

* `Resolution.Sound` — what holds of the values of every resolved agent.
* `Resolution.sound_of_match` — the step: what a match of a standard template says is sound.

Principal result: `Catalog.resolve_sound` (an agent is resolved by the first template that matches
it, to the bindings of that match, and soundly).
-/

namespace ContentNegotiation

open StandardVariable

/-- The values of a resolution are pieces of the agent, each in the grammar of its variable, and the
product is made of them. -/
structure Resolution.Sound (agent : Text) (r : Resolution) : Prop where
  pieces : ∀ e ∈ r.attributes, e.2 <:+: agent
  name : r.captured agentName = some r.product.name
  nameToken : r.product.name.isToken = true
  version : r.product.version = r.captured agentVersion
  versionToken : ∀ v ∈ r.captured agentVersion, v.isToken = true
  comment : ∀ c, r.product.comment = some c ↔ c ≠ [] ∧ r.captured agentComment = some c
  commentText : ∀ c ∈ r.captured agentComment,
    c.Balanced ∧ ∀ x ∈ c, isControl x = true → x = '\t'
  attributeText : ∀ name ∈ [agentOs, commentAttribute], ∀ a ∈ r.captured name,
    a ≠ [] ∧ ∀ x ∈ a, x ≠ '(' ∧ x ≠ ')' ∧ x ≠ ';' ∧ isControl x = false

/-! ## What the standard variables capture -/

section Match

variable [RegexEngine] {t : Template} {agent : Text} {m : TemplateMatch}

/-- A value of a match was captured by the standard variable of its name. -/
theorem exists_standard_capture (ht : t.IsStandard) (hm : t.firstMatch agent = some m)
    {name value : Text} (hvalue : m.value name = some value) :
    ∃ s ∈ slots, s.name = name ∧ s.Captures value ∧ value <:+: agent := by
  obtain ⟨s, hs, hname, hcap, hpiece⟩ := Template.exists_capture_of_value hm
    (fun s hs => defaultValue_of_mem_slots s (ht.slots s hs)) hvalue
  exact ⟨s, ht.slots s hs, hname, hcap, hpiece⟩

/-- A name stands for one standard variable. -/
theorem captures_of_name (ht : t.IsStandard) (hm : t.firstMatch agent = some m) {u : Slot}
    (hu : u ∈ slots) {value : Text} (hvalue : m.value u.name = some value) : u.Captures value := by
  have hunique : ∀ s ∈ slots, ∀ u ∈ slots, s.name = u.name → s = u := by decide
  obtain ⟨s, hs, hname, hcap, -⟩ := exists_standard_capture ht hm hvalue
  rw [← hunique s hs u hu hname]
  exact hcap

end Match

namespace Resolution

theorem comment_of_eq_some_iff {name : Text} {version comment : Option Text} {c : Text} :
    (Product.of name version comment).comment = some c ↔ c ≠ [] ∧ comment = some c := by
  cases comment with
  | none => simp [Product.of, Product.unlessEmpty]
  | some d =>
      rw [Product.of, Product.unlessEmpty_some_eq_iff, Option.some.injEq, eq_comm (a := c)]

section OfMatch

variable [RegexEngine] {t : Template} {agent : Text} {m : TemplateMatch}

theorem exists_name (ht : t.IsStandard) (hm : t.firstMatch agent = some m) :
    ∃ name, m.value agentName = some name := by
  obtain ⟨⟨key, value⟩, he, rfl⟩ :=
    List.mem_map.mp ((Template.mem_keys_of_firstMatch hm).mpr ht.named)
  exact ⟨value, Bindings.lookup_of_mem (Template.keys_nodup_of_firstMatch hm) he⟩

theorem versionToken_of_match (ht : t.IsStandard) (hm : t.firstMatch agent = some m) {v : Text}
    (hv : m.value agentVersion = some v) : v.isToken = true := by
  have hslot : Catalog.Builtin.versionSlot ∈ slots := by decide
  exact Catalog.Builtin.captures_token_iff.mp (captures_of_name ht hm hslot hv)

/-- **What a match of a standard template says is sound.** -/
theorem sound_of_match (ht : t.IsStandard) (hm : t.firstMatch agent = some m) {name : Text}
    (hname : m.value agentName = some name) :
    Sound agent ⟨.of name (m.value agentVersion) (m.value agentComment), m.bindings⟩ := by
  constructor
  case pieces =>
    rintro ⟨key, value⟩ he
    have hvalue := Bindings.lookup_of_mem (Template.keys_nodup_of_firstMatch hm) he
    obtain ⟨-, -, -, -, hpiece⟩ := exists_standard_capture ht hm hvalue
    exact hpiece
  case name => exact hname
  case nameToken =>
    have hslot : Catalog.Builtin.nameSlot ∈ slots := by decide
    exact Catalog.Builtin.captures_token_iff.mp (captures_of_name ht hm hslot hname)
  case version =>
    show Product.unlessEmpty (m.value agentVersion) = m.value agentVersion
    cases hv : m.value agentVersion with
    | none => rfl
    | some v =>
        exact Product.unlessEmpty_some (Text.isToken_iff.mp (versionToken_of_match ht hm hv)).1
  case versionToken => exact fun v hv => versionToken_of_match ht hm hv
  case comment => exact fun c => comment_of_eq_some_iff
  case commentText =>
    intro c hc
    have hslot : Catalog.Builtin.commentSlot ∈ slots := by decide
    exact (Catalog.Builtin.captures_comment_iff.mp (captures_of_name ht hm hslot hc)).symm
  case attributeText =>
    intro name hname a ha
    have hslot : (⟨name, .mandatory .commentAttribute⟩ : Slot) ∈ slots := by
      rcases List.mem_pair.mp hname with rfl | rfl
      · decide
      · decide
    exact Catalog.Builtin.captures_attribute_iff.mp (captures_of_name ht hm hslot ha)

/-- A match of a standard template makes a resolution. -/
theorem exists_ofMatch (ht : t.IsStandard) (hm : t.firstMatch agent = some m) :
    ∃ r, ofMatch m = some r ∧ r.attributes = m.bindings ∧ r.Sound agent := by
  obtain ⟨name, hname⟩ := exists_name ht hm
  refine ⟨_, ?_, rfl, sound_of_match ht hm hname⟩
  rw [ofMatch, hname]
  rfl

theorem bind_ofMatch_eq_none_iff (ht : t.IsStandard) :
    (t.firstMatch agent).bind ofMatch = none ↔ t.firstMatch agent = none := by
  cases hm : t.firstMatch agent with
  | none => simp
  | some m =>
      obtain ⟨r, hr, -⟩ := exists_ofMatch ht hm
      simp [hr]

end OfMatch

end Resolution

namespace Catalog

/-- **An agent is resolved by the first template that matches it**, to the bindings of that match,
and what it says is sound. -/
theorem resolve_sound [RegexEngine] {text : Text} {policy : CatalogPolicy} {c : Catalog}
    (h : read text policy = .ok c) (agent : Text) :
    (c.resolve agent = none ↔ ∀ t ∈ c.templates, t.firstMatch agent = none) ∧
    ∀ r, c.resolve agent = some r →
      ∃ before t after m, c.templates = before ++ t :: after ∧
        (∀ u ∈ before, u.firstMatch agent = none) ∧ t.firstMatch agent = some m ∧
        r.attributes = m.bindings ∧ (r.attributes.map (·.1)).Nodup ∧
        (∀ name, name ∈ r.attributes.map (·.1) ↔ name ∈ t.names) ∧ r.Sound agent := by
  have hnone : ∀ t ∈ c.templates, (t.firstMatch agent).bind Resolution.ofMatch = none ↔
      t.firstMatch agent = none :=
    fun t ht => Resolution.bind_ofMatch_eq_none_iff (isStandard_of_read h ht)
  constructor
  · rw [resolve, List.findSome?_eq_none_iff]
    exact forall₂_congr hnone
  · intro r hr
    obtain ⟨before, t, after, htemplates, ht, hbefore⟩ := List.findSome?_eq_some_iff.mp hr
    have hmem : ∀ u ∈ before ++ t :: after, u ∈ c.templates := fun u hu => htemplates ▸ hu
    obtain ⟨m, hm, hof⟩ := Option.bind_eq_some_iff.mp ht
    have hstandard := isStandard_of_read h (hmem t (by simp))
    obtain ⟨r', hr', hbindings, hsound⟩ := Resolution.exists_ofMatch hstandard hm
    cases hof.symm.trans hr'
    refine ⟨before, t, after, m, htemplates, ?_, hm, hbindings, ?_, ?_, hsound⟩
    · intro u hu
      exact (hnone u (hmem u (List.mem_append_left _ hu))).mp (hbefore u hu)
    · rw [hbindings]
      exact Template.keys_nodup_of_firstMatch hm
    · intro name
      rw [hbindings]
      exact Template.mem_keys_of_firstMatch hm

attribute [local instance] Regex.engine

/-- A name, an attribute and a comment. -/
def annotatedTemplate : Template :=
  ⟨"\x7bagentName\x7d (\x7bagentOs\x7d; \x7bagentComment\x7d)".toList,
    [.slot ⟨agentName, .mandatory .token⟩, .literal [' ', '('],
      .slot ⟨agentOs, .mandatory .commentAttribute⟩, .literal [';', ' '],
      .slot ⟨agentComment, .facultative .comment⟩, .literal [')']], .whole⟩

/-- The first line of the text refers to no standard variable and is left out. -/
theorem annotated_resolve_sound :
    ∃ c, read ("\x7bengine\x7d\n".toList ++ annotatedTemplate.pattern) .skip = .ok c ∧
      c.templates = [annotatedTemplate] ∧
      ∃ r, c.resolve "w (l; x (y))".toList = some r ∧
        r.product = ⟨['w'], none, some "x (y)".toList⟩ ∧
        r.captured agentOs = some ['l'] ∧ r.Sound "w (l; x (y))".toList := by
  have hread : read ("\x7bengine\x7d\n".toList ++ annotatedTemplate.pattern) .skip =
      .ok ⟨[annotatedTemplate],
        [⟨1, "\x7bengine\x7d".toList, .pattern 1 (.unknownVariable "engine".toList)⟩]⟩ := by rfl
  have hmatch : annotatedTemplate.firstMatch "w (l; x (y))".toList =
      some ⟨[(agentComment, "x (y)".toList), (agentOs, ['l']), (agentName, ['w'])],
        "w (l; x (y))".toList⟩ := by
    rw [Template.firstMatch_eq]
    decide +kernel
  have hresolve : resolve ⟨[annotatedTemplate],
      [⟨1, "\x7bengine\x7d".toList, .pattern 1 (.unknownVariable "engine".toList)⟩]⟩
      "w (l; x (y))".toList = some ⟨⟨['w'], none, some "x (y)".toList⟩,
        [(agentComment, "x (y)".toList), (agentOs, ['l']), (agentName, ['w'])]⟩ := by
    rw [resolve, List.findSome?_cons, hmatch]
    rfl
  obtain ⟨-, -, -, -, -, -, -, -, -, -, hsound⟩ := (resolve_sound hread _).2 _ hresolve
  exact ⟨_, hread, rfl, _, hresolve, rfl, by decide, hsound⟩

end Catalog

end ContentNegotiation
