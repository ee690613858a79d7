import ContentNegotiation.Agent.Catalog
import ContentNegotiation.Proofs.Template.Compile

/-!
# The templates of a catalog

A catalog that is read keeps the lines that compile, in their order.  Whatever the text, its
templates refer to the standard variables only.

* `StandardVariable.slots` — the standard variables in their places, as they are compiled.
* `StandardVariable.node` — how they are compiled, for which no engine is needed.
* `Template.IsStandard` — what is known of a template from the fact alone that a catalog holds it.

Principal results: `Catalog.read_engine` (which engine there is makes no difference to a catalog),
`Catalog.templates_of_read` (the templates are the lines that compile) and
`Catalog.isStandard_of_read` (each of them is a standard template).
-/

namespace ContentNegotiation

namespace StandardVariable

/-- The standard variables as they stand in compiled templates. -/
def slots : List Slot :=
  [⟨agentName, .mandatory .token⟩, ⟨agentVersion, .mandatory .token⟩,
    ⟨agentComment, .facultative .comment⟩, ⟨agentOs, .mandatory .commentAttribute⟩,
    ⟨commentAttribute, .mandatory .commentAttribute⟩, ⟨facultativeData, .facultative .all⟩]

theorem mem_slots_of_lookUp {s : Slot} (hv : Template.lookUp all none s.name = some s.var) :
    s ∈ slots := by
  obtain ⟨name, v⟩ := s
  unfold Template.lookUp at hv
  rw [Option.or_none, List.lookup_eq_some_iff] at hv
  obtain ⟨before, after, hall, -⟩ := hv
  have hmem : (name, v) ∈ all := by
    rw [hall]
    exact List.mem_append_right before List.mem_cons_self
  simp only [all, List.mem_cons, List.not_mem_nil, or_false, Prod.mk.injEq] at hmem
  rcases hmem with ⟨rfl, rfl⟩ | ⟨rfl, rfl⟩ | ⟨rfl, rfl⟩ | ⟨rfl, rfl⟩ | ⟨rfl, rfl⟩ | ⟨rfl, rfl⟩
  all_goals decide

theorem defaultValue_of_mem_slots : ∀ s ∈ slots, s.var.defaultValue = none := by
  decide

/-- No standard variable has an expression, so the engine is not asked. -/
theorem compiles_of_mem_slots [RegexEngine] : ∀ s ∈ slots, s.var.kind.compiles = true := by
  simp only [slots, List.forall_mem_cons]
  exact ⟨rfl, rfl, rfl, rfl, rfl, rfl, fun _ hs => absurd hs List.not_mem_nil⟩

/-- The node that a part of a catalog pattern compiles to. -/
def node : Pattern.Part → Except PatternError Node
  | .literal text => .ok (.literal text)
  | .reference name =>
    match all.lookup name with
    | none => .error (.unknownVariable name)
    | some v => .ok (.slot ⟨name, v⟩)

theorem compilePart_eq_node [RegexEngine] : Template.compilePart all none = node := by
  funext part
  cases part with
  | literal text => rfl
  | reference name =>
      have hlookUp : Template.lookUp all none name = all.lookup name := Option.or_none
      rw [Template.compilePart, node, hlookUp]
      cases hv : all.lookup name with
      | none => rfl
      | some v =>
          have hmem : ⟨name, v⟩ ∈ slots := mem_slots_of_lookUp (hlookUp.trans hv)
          exact if_pos (compiles_of_mem_slots _ hmem)

end StandardVariable

/-- A template that covers whole agents, is made of standard variables and captures the name. -/
structure Template.IsStandard (t : Template) : Prop where
  extent : t.extent = .whole
  slots : ∀ s, .slot s ∈ t.nodes → s ∈ StandardVariable.slots
  named : StandardVariable.agentName ∈ t.names

namespace Catalog

theorem compileLine_engine (E E' : RegexEngine) : @compileLine E = @compileLine E' := by
  funext l
  simp only [compileLine, Template.compile, StandardVariable.compilePart_eq_node]

/-- **Which engine there is makes no difference to a catalog.** -/
theorem read_engine (E E' : RegexEngine) (text : Text) (policy : CatalogPolicy) :
    @read E text policy = @read E' text policy := by
  unfold read
  induction patternLines text with
  | nil => rfl
  | cons l ls ih => simp only [compileLines, compileLine_engine E E', ih]

variable [RegexEngine] {policy : CatalogPolicy} {c : Catalog}

theorem compileLine_eq_ok_iff {l : PatternLine} {t : Template} :
    compileLine l = .ok t ↔
      Template.compile l.text StandardVariable.all none .whole = .ok t ∧
        StandardVariable.agentName ∈ t.names := by
  unfold compileLine
  cases Template.compile l.text StandardVariable.all none .whole with
  | error e => simp
  | ok u =>
      by_cases hname : StandardVariable.agentName ∈ u.names
      · simp only [List.contains_iff_mem, hname, if_true, Except.ok.injEq]
        constructor
        · rintro rfl
          exact ⟨rfl, hname⟩
        · rintro ⟨rfl, -⟩
          rfl
      · simp only [List.contains_iff_mem, hname, if_false, reduceCtorEq, Except.ok.injEq, false_iff]
        rintro ⟨rfl, h⟩
        exact hname h

theorem isStandard_of_compileLine {l : PatternLine} {t : Template} (h : compileLine l = .ok t) :
    t.IsStandard := by
  obtain ⟨hcompile, hname⟩ := compileLine_eq_ok_iff.mp h
  obtain ⟨-, -, hextent, -⟩ := Template.compile_eq_ok_iff.mp hcompile
  refine ⟨hextent, ?_, hname⟩
  intro s hs
  exact StandardVariable.mem_slots_of_lookUp (Template.variable_of_compile hcompile hs).1

/-- The lines that compile make the templates, whatever becomes of the others. -/
theorem templates_of_compileLines {ls : List PatternLine} (h : compileLines policy ls = .ok c) :
    c.templates = ls.filterMap fun l => (compileLine l).toOption := by
  induction ls generalizing c with
  | nil =>
      cases h
      rfl
  | cons l ls ih =>
      unfold compileLines at h
      cases hl : compileLine l with
      | ok t =>
          rw [hl] at h
          obtain ⟨d, hd, rfl⟩ := exists_of_map_eq_ok h
          rw [List.filterMap_cons, hl, ih hd]
          rfl
      | error e =>
          rw [hl] at h
          cases policy with
          | strict => cases h
          | skip =>
              obtain ⟨d, hd, rfl⟩ := exists_of_map_eq_ok h
              rw [List.filterMap_cons, hl, ← ih hd]
              rfl

/-- **The templates of a catalog are the lines that compile, in the order of the text.** -/
theorem templates_of_read {text : Text} (h : read text policy = .ok c) :
    c.templates = (patternLines text).filterMap fun l => (compileLine l).toOption :=
  templates_of_compileLines h

/-- **Every template of a catalog is a standard template.** -/
theorem isStandard_of_read {text : Text} (h : read text policy = .ok c) {t : Template}
    (ht : t ∈ c.templates) : t.IsStandard := by
  rw [templates_of_read h] at ht
  obtain ⟨l, -, hl⟩ := List.mem_filterMap.mp ht
  cases hline : compileLine l with
  | error e =>
      rw [hline] at hl
      cases hl
  | ok u =>
      rw [hline] at hl
      cases hl
      exact isStandard_of_compileLine hline

end Catalog

end ContentNegotiation
