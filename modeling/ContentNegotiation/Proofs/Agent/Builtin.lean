import ContentNegotiation.Agent.Builtin
import ContentNegotiation.Agent.Resolution
import ContentNegotiation.Proofs.Agent.Catalog
import ContentNegotiation.Proofs.Template.Match

/-!
# The compiled built-in catalog

The catalog is compiled from its text.  Here the text is read back once and for all, so that nothing
after this module has to compile a pattern.

* `Catalog.builtin_shapes` — every pattern of the catalog compiles, to the nodes of its parts, and
  has to cover the whole agent string.
* `Catalog.resolve_builtin` — resolving is going through the splits of the patterns in order.

Principal result: `Catalog.resolve_builtin_of_not_mozilla` (an agent that does not claim to be
Mozilla is decided by the last four patterns alone).
-/

namespace ContentNegotiation

namespace Catalog

namespace Builtin

/-- The nodes that the parts of a pattern compile to. -/
def nodes (p : List Pattern.Part) : List Node :=
  p.filterMap fun part => (StandardVariable.node part).toOption

/-- How agents begin that claim to be Mozilla. -/
def mozilla : Text := "Mozilla/".toList

theorem head_nodes_mozilla :
    ∀ p ∈ compatible ++ gecko ++ webKit, (nodes p).head? = some (.literal mozilla) := by
  decide +kernel

variable [RegexEngine]

/-- What the first split says about an agent. -/
def reading (agent : Text) (ns : List Node) : Option Resolution :=
  (splits .whole ns agent).head?.bind fun ps => Resolution.ofMatch (.ofPieces ps)

/-- A reading is that of some split, unless there is none. -/
theorem reading_cases (agent : Text) (ns : List Node) :
    (reading agent ns = none ∧ ∀ ps, ps ∉ splits .whole ns agent) ∨
      ∃ ps ∈ splits .whole ns agent,
        reading agent ns = Resolution.ofMatch (.ofPieces ps) := by
  unfold reading
  cases splits .whole ns agent with
  | nil => exact Or.inl ⟨rfl, fun _ => List.not_mem_nil⟩
  | cons ps pss => exact Or.inr ⟨ps, List.mem_cons_self, rfl⟩

theorem reading_eq_none {agent : Text} {ns : List Node} (h : ∀ ps, ps ∉ splits .whole ns agent) :
    reading agent ns = none := by
  rcases reading_cases agent ns with ⟨hnone, -⟩ | ⟨ps, hps, -⟩
  · exact hnone
  · exact absurd hps (h ps)

/-- Where there are splits, what holds of all of them holds of the reading. -/
theorem exists_reading {agent : Text} {ns : List Node} {P : Resolution → Prop}
    (hsplit : ∃ ps, ps ∈ splits .whole ns agent)
    (hall : ∀ ps ∈ splits .whole ns agent,
      ∃ res, Resolution.ofMatch (.ofPieces ps) = some res ∧ P res) :
    ∃ res, reading agent ns = some res ∧ P res := by
  obtain ⟨ps, hps⟩ := hsplit
  rcases reading_cases agent ns with ⟨-, hno⟩ | ⟨qs, hqs, hread⟩
  · exact absurd hps (hno ps)
  · rw [hread]
    exact hall qs hqs

end Builtin

/-- An engine without expressions, with which the catalog can be compiled right here. -/
abbrev idleEngine : RegexEngine where
  Expression := Empty
  compile _ := none
  isMatch := nofun

variable [engine : RegexEngine]

theorem builtin_engine (other : RegexEngine) : @builtin engine = @builtin other := by
  unfold builtin
  rw [read_engine engine other]

/-- **Every pattern of the catalog compiles.** -/
theorem builtin_shapes : builtin.templates.map (fun t => (t.nodes, t.extent)) =
    Builtin.patterns.map fun p => (Builtin.nodes p, Extent.whole) := by
  rw [builtin_engine idleEngine]
  decide +kernel

theorem resolve_builtin (agent : Text) :
    builtin.resolve agent =
      (Builtin.patterns.map Builtin.nodes).findSome? (Builtin.reading agent) := by
  have hresolve : builtin.resolve agent =
      (builtin.templates.map fun t => (t.nodes, t.extent)).findSome? fun shape =>
        (splits shape.2 shape.1 agent).head?.bind fun ps => Resolution.ofMatch (.ofPieces ps) := by
    unfold resolve
    rw [List.findSome?_map]
    congr 1
    funext t
    rw [Template.firstMatch_eq, Option.bind_map]
    rfl
  rw [hresolve, builtin_shapes, List.findSome?_map, List.findSome?_map]
  rfl

/-- A literal that is not blank has to be found. -/
theorem splits_eq_nil_of_not_prefix {extent : Extent} {text input : Text} {after : List Node}
    (hblank : Text.allBlank text = false) (h : ¬ text <+: input) :
    splits extent (.literal text :: after) input = [] := by
  rw [List.eq_nil_iff_forall_not_mem]
  intro ps hps
  obtain ⟨hfits, hcovers⟩ := mem_splits_iff.mp hps
  obtain ⟨qs, rfl, -⟩ := (Fits.literal_iff_of_not_blank hblank).mp hfits
  exact h ((List.prefix_append text _).trans hcovers.isPrefix)

/-- **Other agents are decided by the last four patterns.** -/
theorem resolve_builtin_of_not_mozilla {agent : Text} (h : ¬ Builtin.mozilla <+: agent) :
    builtin.resolve agent =
      (Builtin.plain.map Builtin.nodes).findSome? (Builtin.reading agent) := by
  have hnone : ((Builtin.compatible ++ Builtin.gecko ++ Builtin.webKit).map
      Builtin.nodes).findSome? (Builtin.reading agent) = none := by
    rw [List.findSome?_eq_none_iff, List.forall_mem_map]
    intro p hp
    obtain ⟨after, hnodes⟩ := List.head?_eq_some_iff.mp (Builtin.head_nodes_mozilla p hp)
    rw [Builtin.reading, hnodes, splits_eq_nil_of_not_prefix (by decide) h]
    rfl
  rw [resolve_builtin, Builtin.patterns, List.map_append, List.findSome?_append, hnone,
    Option.none_or]

end Catalog

end ContentNegotiation
