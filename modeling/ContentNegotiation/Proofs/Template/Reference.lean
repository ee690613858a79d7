import ContentNegotiation.Proofs.Template.Compile
import ContentNegotiation.Proofs.Template.Scan

/-!
# What compiles, and why not

A pattern compiles if it is short enough, if it follows the grammar of patterns, and if each of its
references can be resolved.  Otherwise these are judged in that order, and the first fault of the
first one that fails is the error.

* `Node.part` — what stands in the pattern for a node.
* `Template.Resolves` — the name stands for a variable, whose expression, if any, compiles.
* `Template.Unresolved` — the error of a name that does not resolve.
* `Template.FirstUnresolved` — the error of the first such name in a pattern.

Principal results: `Template.split_of_compile` (the nodes stand for the parts of the pattern),
`Template.compile_congr` (only names that are referred to matter) and `Template.compile_decides`
(which patterns compile, to what, and which error the others have).
-/

namespace ContentNegotiation

theorem Kind.compiles_eq_false_iff [RegexEngine] {k : Kind} :
    k.compiles = false ↔ ∃ source, k = .custom source ∧ RegexEngine.compileTied source = none := by
  cases k <;> simp [compiles]

/-- What stands in the pattern for the node. -/
def Node.part : Node → Pattern.Part
  | literal text => .literal text
  | slot s => .reference s.name

namespace Template

/-- The name stands for a variable, registered or by default, and the engine compiles an expression
that the variable may have. -/
structure Resolves [RegexEngine] (registry : Registry) (fallback : Option Variable) (name : Text) :
    Prop where
  known : (registry.lookup name).isSome ∨ fallback.isSome
  compilable : ∀ v source, lookUp registry fallback name = some v → v.kind = .custom source →
    (RegexEngine.compileTied source).isSome

/-- What is wrong with a name that does not resolve. -/
inductive Unresolved [RegexEngine] (registry : Registry) (fallback : Option Variable)
    (name : Text) : PatternError → Prop where
  /-- It stands for no variable. -/
  | unknown : registry.lookup name = none → fallback = none →
      Unresolved registry fallback name (.unknownVariable name)
  /-- The engine does not compile the expression of its variable. -/
  | invalid {v : Variable} {source : Text} : lookUp registry fallback name = some v →
      v.kind = .custom source → RegexEngine.compileTied source = none →
        Unresolved registry fallback name (.invalidExpression name)

/-- The first reference of the pattern that does not resolve, and its error. -/
def FirstUnresolved [RegexEngine] (registry : Registry) (fallback : Option Variable)
    (pattern : Text) (e : PatternError) : Prop :=
  ∃ before name after, pattern = before ++ '\x7b' :: (name ++ '\x7d' :: after) ∧
    Pattern.NoBraces name ∧ (∀ n, Pattern.Refers before n → Resolves registry fallback n) ∧
    Unresolved registry fallback name e

variable [RegexEngine] {pattern name : Text} {registry : Registry} {fallback : Option Variable}
  {extent : Extent} {t : Template} {e : PatternError}

omit [RegexEngine] in
theorem lookUp_eq_none_iff :
    lookUp registry fallback name = none ↔ registry.lookup name = none ∧ fallback = none := by
  unfold lookUp
  exact Option.or_eq_none_iff

/-! ## One reference -/

theorem compilePart_reference_eq_error_iff :
    compilePart registry fallback (.reference name) = .error e ↔
      Unresolved registry fallback name e := by
  rw [compilePart]
  cases hv : lookUp registry fallback name with
  | none =>
      obtain ⟨hregistry, hfallback⟩ := lookUp_eq_none_iff.mp hv
      constructor
      · intro h
        cases h
        exact .unknown hregistry hfallback
      · intro h
        cases h with
        | unknown _ _ => rfl
        | invalid hv' _ _ => cases hv.symm.trans hv'
  | some v =>
      cases hcompiles : v.kind.compiles with
      | false =>
          obtain ⟨source, hkind, hnone⟩ := Kind.compiles_eq_false_iff.mp hcompiles
          simp only [hcompiles, Bool.false_eq_true, if_false]
          constructor
          · intro h
            cases h
            exact .invalid hv hkind hnone
          · intro h
            cases h with
            | unknown hregistry hfallback =>
                cases hv.symm.trans (lookUp_eq_none_iff.mpr ⟨hregistry, hfallback⟩)
            | invalid _ _ _ => rfl
      | true =>
          simp only [hcompiles, if_true]
          constructor
          · intro h
            cases h
          · intro h
            cases h with
            | unknown hregistry hfallback =>
                cases hv.symm.trans (lookUp_eq_none_iff.mpr ⟨hregistry, hfallback⟩)
            | invalid hv' hkind hnone =>
                obtain rfl := Option.some.inj (hv.symm.trans hv')
                cases hcompiles.symm.trans (Kind.compiles_eq_false_iff.mpr ⟨_, hkind, hnone⟩)

theorem resolves_iff_not_unresolved :
    Resolves registry fallback name ↔ ∀ e, ¬ Unresolved registry fallback name e := by
  constructor
  · rintro ⟨hknown, hcompilable⟩ e h
    cases h with
    | unknown hregistry hfallback =>
        rw [hregistry, hfallback] at hknown
        simp at hknown
    | invalid hv hkind hnone =>
        have hsome := hcompilable _ _ hv hkind
        rw [hnone] at hsome
        cases hsome
  · intro h
    constructor
    · by_contra hknown
      simp only [not_or, Bool.not_eq_true, Option.isSome_eq_false_iff,
        Option.isNone_iff_eq_none] at hknown
      exact h _ (.unknown hknown.1 hknown.2)
    · intro v source hv hkind
      by_contra hnone
      rw [Bool.not_eq_true, Option.isSome_eq_false_iff, Option.isNone_iff_eq_none] at hnone
      exact h _ (.invalid hv hkind hnone)

theorem exists_compilePart_iff :
    (∃ n, compilePart registry fallback (.reference name) = .ok n) ↔
      Resolves registry fallback name := by
  rw [resolves_iff_not_unresolved]
  simp only [← compilePart_reference_eq_error_iff]
  cases compilePart registry fallback (.reference name) <;> simp

theorem part_of_compilePart {part : Pattern.Part} {n : Node}
    (h : compilePart registry fallback part = .ok n) : n.part = part := by
  cases n with
  | slot s => rw [(compilePart_eq_slot_iff.mp h).1, Node.part]
  | literal text =>
      cases part with
      | literal text' =>
          cases h
          rfl
      | reference name =>
          rw [compilePart] at h
          split at h
          · cases h
          · split at h <;> cases h

/-! ## All references of a pattern -/

theorem map_part_of_mapM {parts : List Pattern.Part} {nodes : List Node}
    (h : parts.mapM (compilePart registry fallback) = .ok nodes) :
    nodes.map Node.part = parts := by
  have hpart : List.Forall₂ (fun n part => n.part = part) nodes parts :=
    (mapM_eq_ok_iff.mp h).flip.imp fun _ _ => part_of_compilePart
  have hmap : List.Forall₂ (· = ·) (nodes.map Node.part) parts :=
    List.forall₂_map_left_iff.mpr hpart
  rwa [List.forall₂_eq_eq_eq] at hmap

/-- **The nodes stand for the parts of the pattern.** -/
theorem split_of_compile (h : compile pattern registry fallback extent = .ok t) :
    Pattern.split pattern = .ok (t.nodes.map Node.part) := by
  obtain ⟨-, -, -, parts, hparts, hnodes⟩ := compile_eq_ok_iff.mp h
  rw [map_part_of_mapM hnodes, hparts]

/-- Only names that the pattern refers to matter. -/
theorem compile_congr {other : Registry}
    (h : ∀ name, Pattern.Refers pattern name → other.lookup name = registry.lookup name) :
    compile pattern other fallback extent = compile pattern registry fallback extent := by
  unfold compile
  cases hparts : Pattern.split pattern with
  | error e => rfl
  | ok parts =>
      obtain ⟨hproper, -, rfl⟩ := Pattern.split_eq_ok_iff.mp hparts
      have hsame : parts.mapM (compilePart other fallback) =
          parts.mapM (compilePart registry fallback) := by
        refine mapM_congr fun part hpart => ?_
        cases part with
        | literal text => rfl
        | reference name =>
            have hlookup := h name ((Pattern.refers_spelled_iff hproper).mpr hpart)
            simp only [compilePart, lookUp, hlookup]
      simp only [bind, Except.bind, hsame]

/-- Proper parts compile if their references resolve. -/
theorem forall_exists_compilePart_iff {parts : List Pattern.Part} :
    (∀ part ∈ parts, ∃ n, compilePart registry fallback part = .ok n) ↔
      ∀ name, .reference name ∈ parts → Resolves registry fallback name := by
  constructor
  · intro h name hmem
    exact exists_compilePart_iff.mp (h _ hmem)
  · intro h part hmem
    cases part with
    | literal text => exact ⟨_, rfl⟩
    | reference name => exact exists_compilePart_iff.mpr (h name hmem)

/-- The traversal of proper parts fails at the first name that does not resolve. -/
theorem mapM_compilePart_eq_error_iff {parts : List Pattern.Part}
    (hproper : ∀ p ∈ parts, p.Proper) :
    parts.mapM (compilePart registry fallback) = .error e ↔
      FirstUnresolved registry fallback (Pattern.spelled parts) e := by
  rw [mapM_eq_error_iff]
  constructor
  · rintro ⟨before, part, after, rfl, hbefore, hpart⟩
    have hbeforeProper : ∀ p ∈ before, p.Proper := fun p hp => hproper p (by simp [hp])
    cases part with
    | literal text => cases hpart
    | reference name =>
        have hname : (Pattern.Part.reference name).Proper := hproper _ (by simp)
        refine ⟨Pattern.spelled before, name, Pattern.spelled after, ?_, hname.noBraces, ?_,
          compilePart_reference_eq_error_iff.mp hpart⟩
        · rw [Pattern.spelled_append, Pattern.spelled_reference]
        · intro n hn
          exact forall_exists_compilePart_iff.mp hbefore n
            ((Pattern.refers_spelled_iff hbeforeProper).mp hn)
  · rintro ⟨before, name, after, heq, hname, hbefore, hunresolved⟩
    obtain ⟨ps, qs, rfl, rfl, -⟩ := Pattern.exists_parts_of_reference hproper hname heq
    have hpsProper : ∀ p ∈ ps, p.Proper := fun p hp => hproper p (by simp [hp])
    refine ⟨ps, .reference name, qs, rfl, ?_, compilePart_reference_eq_error_iff.mpr hunresolved⟩
    refine forall_exists_compilePart_iff.mpr fun n hn => hbefore n ?_
    exact (Pattern.refers_spelled_iff hpsProper).mpr hn

/-- What is judged first decides: the length, then the braces, then the references. -/
theorem compile_eq_error_iff :
    compile pattern registry fallback extent = .error e ↔
      if Pattern.maxBytes < Text.byteSize pattern then e = .tooLong (Text.byteSize pattern)
      else Pattern.FirstFault pattern e ∨
        (∀ e', ¬ Pattern.FirstFault pattern e') ∧
          FirstUnresolved registry fallback pattern e := by
  unfold compile
  by_cases hlong : Pattern.maxBytes < Text.byteSize pattern
  · rw [if_pos hlong, if_pos hlong, Except.error.injEq, eq_comm]
  · rw [if_neg hlong, if_neg hlong]
    simp only [← Pattern.split_eq_error_iff]
    cases hparts : Pattern.split pattern with
    | error d => simp [bind, Except.bind]
    | ok parts =>
        obtain ⟨hproper, -, rfl⟩ := Pattern.split_eq_ok_iff.mp hparts
        rw [← mapM_compilePart_eq_error_iff hproper]
        simp only [bind, Except.bind, reduceCtorEq, false_or, not_false_eq_true, implies_true,
          true_and]
        cases parts.mapM (compilePart registry fallback) <;> simp [pure, Except.pure]

theorem exists_compile_iff :
    (∃ t, compile pattern registry fallback extent = .ok t) ↔
      Text.byteSize pattern ≤ Pattern.maxBytes ∧
      (∃ parts, (∀ p ∈ parts, p.Proper) ∧ Pattern.spelled parts = pattern) ∧
      ∀ name, Pattern.Refers pattern name → Resolves registry fallback name := by
  rw [← Pattern.exists_split_iff]
  constructor
  · rintro ⟨t, h⟩
    obtain ⟨hlong, -, -, parts, hparts, hnodes⟩ := compile_eq_ok_iff.mp h
    obtain ⟨hproper, -, rfl⟩ := Pattern.split_eq_ok_iff.mp hparts
    refine ⟨hlong, ⟨parts, hparts⟩, fun name hname => ?_⟩
    have hmem := (Pattern.refers_spelled_iff hproper).mp hname
    exact forall_exists_compilePart_iff.mp (exists_of_mem_mapM hnodes) name hmem
  · rintro ⟨hlong, ⟨parts, hparts⟩, hresolves⟩
    obtain ⟨hproper, -, rfl⟩ := Pattern.split_eq_ok_iff.mp hparts
    cases hnodes : parts.mapM (compilePart registry fallback) with
    | ok nodes =>
        exact ⟨⟨Pattern.spelled parts, nodes, extent⟩,
          compile_eq_ok_iff.mpr ⟨hlong, rfl, rfl, parts, hparts, hnodes⟩⟩
    | error e =>
        obtain ⟨before, name, after, heq, hname, -, hunresolved⟩ :=
          (mapM_compilePart_eq_error_iff hproper).mp hnodes
        have hrefers : Pattern.Refers (Pattern.spelled parts) name :=
          ⟨hname, before, after, by simp [heq]⟩
        exact absurd hunresolved (resolves_iff_not_unresolved.mp (hresolves name hrefers) e)

/-- **Which patterns compile, to what, and which error the others have.**  A pattern compiles if it
is not too long, is spelled by proper parts, and refers to names that resolve.  Its nodes then spell
it out again, with no two literals side by side.  Entries of other names in the registry make no
difference.  Otherwise the error is that of the length, or else that of the first brace at fault, or
else that of the first reference that does not resolve. -/
theorem compile_decides (pattern : Text) (registry : Registry) (fallback : Option Variable)
    (extent : Extent) :
    ((∃ t, compile pattern registry fallback extent = .ok t) ↔
      Text.byteSize pattern ≤ Pattern.maxBytes ∧
      (∃ parts, (∀ p ∈ parts, p.Proper) ∧ Pattern.spelled parts = pattern) ∧
      ∀ name, Pattern.Refers pattern name → Resolves registry fallback name) ∧
    (∀ t, compile pattern registry fallback extent = .ok t →
      Pattern.spelled (t.nodes.map Node.part) = pattern ∧
      Pattern.Separated (t.nodes.map Node.part)) ∧
    (∀ other : Registry,
      (∀ name, Pattern.Refers pattern name → other.lookup name = registry.lookup name) →
      compile pattern other fallback extent = compile pattern registry fallback extent) ∧
    ∀ e, compile pattern registry fallback extent = .error e ↔
      if Pattern.maxBytes < Text.byteSize pattern then e = .tooLong (Text.byteSize pattern)
      else Pattern.FirstFault pattern e ∨
        (∀ e', ¬ Pattern.FirstFault pattern e') ∧
          FirstUnresolved registry fallback pattern e := by
  refine ⟨exists_compile_iff, fun t ht => ?_, fun _ => compile_congr,
    fun e => compile_eq_error_iff⟩
  obtain ⟨-, hseparated, hspelled⟩ := Pattern.split_eq_ok_iff.mp (split_of_compile ht)
  exact ⟨hspelled, hseparated⟩

end Template

end ContentNegotiation
