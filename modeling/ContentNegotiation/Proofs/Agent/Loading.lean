import ContentNegotiation.Agent.Resolution
import ContentNegotiation.Proofs.Agent.Catalog
import ContentNegotiation.Proofs.Text.Lines

/-!
# Loading a catalog text

Both policies judge the same lines, one by one and apart from each other.  Hence what skipping makes
of a text is known from its lines alone, the strict policy differs only in giving up at the first
line that skipping reports, and a text may be loaded in two halves.

* `Catalog.PatternLine.StandsIn` — the numbered lines of a text that hold patterns.
* `Catalog.Divides` — each line is a template or a diagnostic, in the order of the lines.
* `Catalog.compileLines_skip`, `Catalog.compileLines_strict` — all that loading does.

Principal results: `Catalog.read_policies_agree` and `Catalog.read_append`.
-/

namespace ContentNegotiation

/-- The same error so many lines further down. -/
def CatalogError.shift (n : Nat) : CatalogError → CatalogError
  | pattern line error => pattern (n + line) error
  | missingAgentName line => missingAgentName (n + line)

/-- The same diagnostic so many lines further down, in the number and in the error alike. -/
def Diagnostic.shift (n : Nat) (d : Diagnostic) : Diagnostic :=
  ⟨n + d.lineNumber, d.line, d.error.shift n⟩

namespace Catalog

/-! ## The lines of a text -/

namespace PatternLine

/-- What a line and its number make; `none` for a blank line and for a comment. -/
def ofNumbered (l : Text × Nat) : Option PatternLine :=
  let line := Text.trim l.1
  if line.isEmpty || line.head? = some '#' then none else some ⟨l.2, line⟩

/-- The line of that number, counted from one, without the blanks around it; neither blank nor a
comment. -/
def StandsIn (text : Text) (l : PatternLine) : Prop :=
  ∃ raw, (raw, l.number) ∈ (Text.lines text).zipIdx 1 ∧ l.text = Text.trim raw ∧
    l.text ≠ [] ∧ l.text.head? ≠ some '#'

theorem ofNumbered_eq_some_iff {raw : Text} {n : Nat} {l : PatternLine} :
    ofNumbered (raw, n) = some l ↔
      n = l.number ∧ l.text = Text.trim raw ∧ l.text ≠ [] ∧ l.text.head? ≠ some '#' := by
  obtain ⟨number, text⟩ := l
  constructor
  · intro h
    simp only [ofNumbered, Option.ite_none_left_eq_some, Bool.or_eq_true, not_or,
      List.isEmpty_iff, decide_eq_true_eq, Option.some.injEq, mk.injEq] at h
    obtain ⟨⟨hne, hhead⟩, rfl, rfl⟩ := h
    exact ⟨rfl, rfl, hne, hhead⟩
  · rintro ⟨rfl, rfl, hne, hhead⟩
    simp only at hne hhead
    simp [ofNumbered, hne, hhead]

theorem ofNumbered_dropReturn (raw : Text) (n : Nat) :
    ofNumbered (Text.dropReturn raw, n) = ofNumbered (raw, n) := by
  simp only [ofNumbered, Text.trim_dropReturn]

end PatternLine

open PatternLine (ofNumbered)

theorem patternLines_eq (text : Text) :
    patternLines text = ((Text.splitAll '\n' text).zipIdx 1).filterMap ofNumbered := rfl

/-- Neither a carriage return before a newline nor the empty rest after the last newline makes a
difference. -/
theorem patternLines_eq_lines (text : Text) :
    patternLines text = ((Text.lines text).zipIdx 1).filterMap ofNumbered := by
  obtain ⟨ended, last, hsplit, hlines⟩ := Text.exists_splitAll_eq text
  have hended : (((ended.map Text.dropReturn).zipIdx 1).filterMap ofNumbered) =
      (ended.zipIdx 1).filterMap ofNumbered := by
    rw [List.zipIdx_map, List.filterMap_map]
    exact List.filterMap_congr fun l _ => PatternLine.ofNumbered_dropReturn l.1 l.2
  rw [patternLines_eq, hsplit, hlines, List.zipIdx_append, List.zipIdx_append,
    List.filterMap_append, List.filterMap_append, hended, List.length_map]
  cases last with
  | nil => rfl
  | cons c last => rfl

theorem mem_patternLines_iff {text : Text} {l : PatternLine} :
    l ∈ patternLines text ↔ l.StandsIn text := by
  rw [patternLines_eq_lines, List.mem_filterMap]
  constructor
  · rintro ⟨⟨raw, n⟩, hmem, hl⟩
    obtain ⟨rfl, hpattern⟩ := PatternLine.ofNumbered_eq_some_iff.mp hl
    exact ⟨raw, hmem, hpattern⟩
  · rintro ⟨raw, hmem, hpattern⟩
    exact ⟨(raw, l.number), hmem, PatternLine.ofNumbered_eq_some_iff.mpr ⟨rfl, hpattern⟩⟩

theorem patternLines_pairwise (text : Text) :
    (patternLines text).Pairwise (·.number < ·.number) := by
  have hnumbers : ((Text.lines text).zipIdx 1).Pairwise (·.2 < ·.2) := by
    rw [← List.pairwise_map (f := Prod.snd) (R := (· < ·)), List.zipIdx_map_snd]
    exact List.pairwise_lt_range' 1
  rw [patternLines_eq_lines]
  refine hnumbers.filterMap ofNumbered ?_
  rintro ⟨raw, n⟩ ⟨raw', n'⟩ hlt l hl l' hl'
  obtain ⟨rfl, -⟩ := PatternLine.ofNumbered_eq_some_iff.mp hl
  obtain ⟨rfl, -⟩ := PatternLine.ofNumbered_eq_some_iff.mp hl'
  exact hlt

/-! ## Lines of two halves -/

namespace PatternLine

/-- The same line so many lines further down. -/
def shift (n : Nat) (l : PatternLine) : PatternLine :=
  { l with number := n + l.number }

theorem ofNumbered_add (n k : Nat) (raw : Text) :
    ofNumbered (raw, n + k) = (ofNumbered (raw, k)).map (shift n) := by
  unfold ofNumbered
  dsimp only
  split
  · rfl
  · rfl

end PatternLine

/-- The lines after a newline are counted on from those before it. -/
theorem patternLines_append (a b : Text) :
    patternLines (a ++ '\n' :: b) =
      patternLines a ++ (patternLines b).map (PatternLine.shift (1 + a.count '\n')) := by
  have hoffset : (Text.splitAll '\n' b).zipIdx (1 + (a.count '\n' + 1)) =
      ((Text.splitAll '\n' b).zipIdx 1).map fun l => (l.1, 1 + a.count '\n' + l.2) := by
    rw [List.zipIdx_eq_map_add, List.zipIdx_eq_map_add (i := 1), List.map_map]
    refine List.map_congr_left ?_
    rintro ⟨raw, k⟩ -
    simp only [Function.comp_apply, Prod.mk.injEq, true_and]
    omega
  rw [patternLines_eq, patternLines_eq, patternLines_eq, Text.splitAll_append_cons,
    List.zipIdx_append, List.filterMap_append, Text.length_splitAll, hoffset, List.filterMap_map,
    List.map_filterMap]
  congr 1
  refine List.filterMap_congr ?_
  rintro ⟨raw, k⟩ -
  exact PatternLine.ofNumbered_add _ k raw

/-- What is made of each line by itself is made of the two halves apart. -/
theorem filterMap_patternLines_append {β : Type} {f : PatternLine → Option β}
    (shift : Nat → β → β) (hf : ∀ n l, f (l.shift n) = (f l).map (shift n)) (a b : Text) :
    (patternLines (a ++ '\n' :: b)).filterMap f =
      (patternLines a).filterMap f ++
        ((patternLines b).filterMap f).map (shift (1 + a.count '\n')) := by
  rw [patternLines_append, List.filterMap_append, List.filterMap_map, List.map_filterMap]
  congr 1
  exact List.filterMap_congr fun l _ => hf _ l

/-! ## One line -/

variable [RegexEngine]

namespace PatternLine

/-- The line compiles to a template that captures the agent's name. -/
def Compiles (l : PatternLine) (t : Template) : Prop :=
  Template.compile l.text StandardVariable.all none .whole = .ok t ∧
    StandardVariable.agentName ∈ t.names

/-- Why the line makes no template. -/
inductive Fails (l : PatternLine) : CatalogError → Prop
  | pattern {e : PatternError}
      (h : Template.compile l.text StandardVariable.all none .whole = .error e) :
      Fails l (.pattern l.number e)
  | missingAgentName {t : Template}
      (h : Template.compile l.text StandardVariable.all none .whole = .ok t)
      (hname : StandardVariable.agentName ∉ t.names) : Fails l (.missingAgentName l.number)

/-- The template that the line makes. -/
def template (l : PatternLine) : Option Template := (compileLine l).toOption

/-- What is reported of the line where it makes no template. -/
def report (l : PatternLine) : Option Diagnostic :=
  match compileLine l with
  | .ok _ => none
  | .error e => some ⟨l.number, l.text, e⟩

end PatternLine

section Line

variable {l : PatternLine}

theorem fails_of_compileLine {e : CatalogError} (h : compileLine l = .error e) : l.Fails e := by
  unfold compileLine at h
  cases hcompile : Template.compile l.text StandardVariable.all none .whole with
  | error e' =>
      rw [hcompile] at h
      cases h
      exact .pattern hcompile
  | ok t =>
      by_cases hname : StandardVariable.agentName ∈ t.names
      · simp [hcompile, hname] at h
      · simp only [hcompile, List.contains_iff_mem, hname, if_false, Except.error.injEq] at h
        exact h ▸ .missingAgentName hcompile hname

theorem PatternLine.Compiles.pattern_eq {t : Template} (h : l.Compiles t) : t.pattern = l.text :=
  (Template.compile_eq_ok_iff.mp h.1).2.1

theorem made_of_ok {t : Template} (h : compileLine l = .ok t) :
    l.template = some t ∧ l.report = none := by
  rw [PatternLine.template, PatternLine.report, h]
  exact ⟨rfl, rfl⟩

theorem made_of_error {e : CatalogError} (h : compileLine l = .error e) :
    l.template = none ∧ l.report = some ⟨l.number, l.text, e⟩ := by
  rw [PatternLine.template, PatternLine.report, h]
  exact ⟨rfl, rfl⟩

end Line

/-! ## All lines -/

/-- In their order, the lines that compile make the templates, and the others the diagnostics. -/
inductive Divides : List PatternLine → List Template → List Diagnostic → Prop
  | nil : Divides [] [] []
  | template {l : PatternLine} {t : Template} {ls : List PatternLine} {ts : List Template}
      {ds : List Diagnostic} (h : l.Compiles t) (hpattern : t.pattern = l.text)
      (hrest : Divides ls ts ds) : Divides (l :: ls) (t :: ts) ds
  | diagnostic {l : PatternLine} {e : CatalogError} {ls : List PatternLine} {ts : List Template}
      {ds : List Diagnostic} (h : ∀ t, ¬ l.Compiles t) (herror : l.Fails e)
      (hrest : Divides ls ts ds) : Divides (l :: ls) ts (⟨l.number, l.text, e⟩ :: ds)

theorem divides (ls : List PatternLine) :
    Divides ls (ls.filterMap PatternLine.template) (ls.filterMap PatternLine.report) := by
  induction ls with
  | nil => exact .nil
  | cons l ls ih =>
      cases hl : compileLine l with
      | ok t =>
          obtain ⟨htemplate, hreport⟩ := made_of_ok hl
          have hcompiles : l.Compiles t := compileLine_eq_ok_iff.mp hl
          rw [List.filterMap_cons_some htemplate, List.filterMap_cons_none hreport]
          exact .template hcompiles hcompiles.pattern_eq ih
      | error e =>
          obtain ⟨htemplate, hreport⟩ := made_of_error hl
          have hnot : ∀ t, ¬ l.Compiles t := by
            intro t ht
            cases hl.symm.trans (compileLine_eq_ok_iff.mpr ht)
          rw [List.filterMap_cons_none htemplate, List.filterMap_cons_some hreport]
          exact .diagnostic hnot (fails_of_compileLine hl) ih

/-- **Skipping always succeeds**, with the lines that compile and a report of each other line. -/
theorem compileLines_skip (ls : List PatternLine) :
    compileLines .skip ls =
      .ok ⟨ls.filterMap PatternLine.template, ls.filterMap PatternLine.report⟩ := by
  induction ls with
  | nil => rfl
  | cons l ls ih =>
      unfold compileLines
      rw [ih]
      cases hl : compileLine l with
      | ok t =>
          obtain ⟨htemplate, hreport⟩ := made_of_ok hl
          rw [List.filterMap_cons_some htemplate, List.filterMap_cons_none hreport]
          rfl
      | error e =>
          obtain ⟨htemplate, hreport⟩ := made_of_error hl
          rw [List.filterMap_cons_none htemplate, List.filterMap_cons_some hreport]
          rfl

/-- **Strict loading gives up at the first line that skipping reports.** -/
theorem compileLines_strict (ls : List PatternLine) :
    compileLines .strict ls =
      match ls.findSome? PatternLine.report with
      | none => .ok ⟨ls.filterMap PatternLine.template, []⟩
      | some d => .error d.error := by
  induction ls with
  | nil => rfl
  | cons l ls ih =>
      unfold compileLines
      cases hl : compileLine l with
      | ok t =>
          obtain ⟨htemplate, hreport⟩ := made_of_ok hl
          rw [ih, List.findSome?_cons, hreport, List.filterMap_cons_some htemplate]
          cases ls.findSome? PatternLine.report with
          | none => rfl
          | some d => rfl
      | error e => rw [List.findSome?_cons, (made_of_error hl).2]

theorem read_skip (text : Text) :
    read text .skip = .ok ⟨(patternLines text).filterMap PatternLine.template,
      (patternLines text).filterMap PatternLine.report⟩ :=
  compileLines_skip _

theorem read_strict (text : Text) {c : Catalog} (h : read text .skip = .ok c) :
    read text .strict =
      match c.diagnostics with
      | [] => .ok c
      | d :: _ => .error d.error := by
  cases (read_skip text).symm.trans h
  rw [read, compileLines_strict, ← List.head?_filterMap]
  cases (patternLines text).filterMap PatternLine.report with
  | nil => rfl
  | cons d ds => rfl

theorem report_pairwise (text : Text) :
    ((patternLines text).filterMap PatternLine.report).Pairwise
      (·.lineNumber < ·.lineNumber) := by
  have hnumber : ∀ (l : PatternLine) (d : Diagnostic), l.report = some d →
      d.lineNumber = l.number := by
    intro l d hd
    cases hl : compileLine l with
    | ok t => cases hd.symm.trans (made_of_ok hl).2
    | error e =>
        cases hd.symm.trans (made_of_error hl).2
        rfl
  refine (patternLines_pairwise text).filterMap PatternLine.report ?_
  intro l l' hlt d hd d' hd'
  rw [hnumber l d hd, hnumber l' d' hd']
  exact hlt

/-- **The two policies agree.** Skipping succeeds for every text and divides the lines that hold
patterns into templates and diagnostics; strict loading gives the same catalog if there is no
diagnostic, and otherwise the error of the first one. -/
theorem read_policies_agree (text : Text) :
    ∃ c, read text .skip = .ok c ∧
      (∃ ls, (∀ l, l ∈ ls ↔ l.StandsIn text) ∧ ls.Pairwise (·.number < ·.number) ∧
        Divides ls c.templates c.diagnostics) ∧
      c.diagnostics.Pairwise (·.lineNumber < ·.lineNumber) ∧
      (∀ d, read text .strict = .ok d ↔ c.diagnostics = [] ∧ d = c) ∧
      ∀ e, read text .strict = .error e ↔ ∃ d, c.diagnostics.head? = some d ∧ e = d.error := by
  refine ⟨_, read_skip text, ?_, report_pairwise text, ?_⟩
  · exact ⟨patternLines text, fun l => mem_patternLines_iff, patternLines_pairwise text,
      divides (patternLines text)⟩
  · rw [read_strict text (read_skip text)]
    cases (patternLines text).filterMap PatternLine.report with
    | nil => simp [eq_comm]
    | cons d ds => simp [eq_comm]

/-! ## Texts in two halves -/

namespace PatternLine

theorem compileLine_shift (n : Nat) (l : PatternLine) :
    compileLine (l.shift n) = (compileLine l).mapError (·.shift n) := by
  unfold compileLine
  rw [show (l.shift n).text = l.text from rfl]
  cases Template.compile l.text StandardVariable.all none .whole with
  | error e => rfl
  | ok t =>
      dsimp only
      split
      · rfl
      · rfl

theorem template_shift (n : Nat) (l : PatternLine) : (l.shift n).template = l.template := by
  rw [template, template, compileLine_shift]
  cases compileLine l with
  | error e => rfl
  | ok t => rfl

theorem report_shift (n : Nat) (l : PatternLine) :
    (l.shift n).report = l.report.map (·.shift n) := by
  rw [report, report, compileLine_shift]
  cases compileLine l with
  | error e => rfl
  | ok t => rfl

end PatternLine

theorem resolve_append (ts us : List Template) (ds es fs : List Diagnostic) (agent : Text) :
    resolve ⟨ts ++ us, ds⟩ agent = (resolve ⟨ts, es⟩ agent).or (resolve ⟨us, fs⟩ agent) :=
  List.findSome?_append

/-- **A text may be loaded in two halves.** With a newline between two texts, the templates of the
first come before those of the second, and so do the diagnostics, counted on from the lines of the
first. An agent is resolved by the first text if that resolves it, and otherwise by the second. -/
theorem read_append (a b : Text) :
    ∃ ca cb c, read a .skip = .ok ca ∧ read b .skip = .ok cb ∧
      read (a ++ '\n' :: b) .skip = .ok c ∧ c.templates = ca.templates ++ cb.templates ∧
      c.diagnostics = ca.diagnostics ++ cb.diagnostics.map (·.shift (1 + a.count '\n')) ∧
      ∀ agent, c.resolve agent = (ca.resolve agent).or (cb.resolve agent) := by
  have htemplates : (patternLines (a ++ '\n' :: b)).filterMap PatternLine.template =
      (patternLines a).filterMap PatternLine.template ++
        (patternLines b).filterMap PatternLine.template := by
    have hunchanged := filterMap_patternLines_append (f := PatternLine.template) (fun _ => id)
      (by simp [PatternLine.template_shift]) a b
    rwa [List.map_id] at hunchanged
  have hdiagnostics := filterMap_patternLines_append Diagnostic.shift PatternLine.report_shift a b
  refine ⟨_, _, _, read_skip a, read_skip b, read_skip _, htemplates, hdiagnostics, ?_⟩
  intro agent
  rw [htemplates]
  exact resolve_append _ _ _ _ _ agent

end Catalog

end ContentNegotiation
