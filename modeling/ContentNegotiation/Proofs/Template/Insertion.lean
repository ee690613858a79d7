import ContentNegotiation.Proofs.Template.Match
import ContentNegotiation.Proofs.Template.Reference
import ContentNegotiation.Regex.Parser

/-!
# Adding a facultative variable

Where a pattern begins, or where one of its references ends, blanks and a reference to a facultative
variable may be added without losing an input.  The orders in which the neighbours try their spans
may change by that, and with them the split that is found.  Yet a split of the input by the shorter
pattern is one by the longer pattern, if the blanks are left out together with the new variable.

* `Pattern.exists_parts_of_insert` — the parts of the longer pattern are those of the shorter one
  with two more between them.
* `Fits.exists_of_append` — behind a variable the pieces are cut where the nodes are.

Principal result: `Template.firstMatch_insert` (the longer pattern matches what the shorter one
matches).
-/

namespace ContentNegotiation

namespace Pattern

/-- The last part, if there is one, is a reference. -/
def Ended (ps : List Part) : Prop :=
  ∀ text, ps.getLast? ≠ some (.literal text)

theorem ended_nil : Ended [] :=
  fun _ h => nomatch h

theorem ended_reference (ps : List Part) (name : Text) : Ended (ps ++ [.reference name]) := by
  intro text h
  rw [List.getLast?_concat] at h
  cases h

theorem not_ended_literal (text : Text) : ¬ Ended [.literal text] :=
  fun h => h text rfl

theorem Ended.tail {p : Part} {ps : List Part} (h : Ended (p :: ps)) : Ended ps := by
  cases ps with
  | nil => exact ended_nil
  | cons q ps =>
      intro text hlast
      refine h text ?_
      rw [List.getLast?_cons_cons, hlast]

/-- Behind a reference any part may stand. -/
theorem Separated.append {ps qs : List Part} (hps : Separated ps) (hended : Ended ps)
    (hqs : Separated qs) : Separated (ps ++ qs) := by
  refine List.isChain_append.mpr ⟨hps, hqs, fun p hp q _ => ?_⟩
  cases p with
  | literal text => exact absurd hp (hended text)
  | reference name => trivial

/-- Behind a closing brace, text without braces is a literal of its own. -/
theorem exists_ended_of_spelled {parts : List Part} (hproper : ∀ p ∈ parts, p.Proper)
    (hseparated : Separated parts) {p w : Text} (hp : p = [] ∨ ∃ front, p = front ++ ['\x7d'])
    (hw : NoBraces w) (hne : w ≠ []) (h : spelled parts = p ++ w) :
    ∃ ps, parts = ps ++ [.literal w] ∧ Ended ps ∧ spelled ps = p := by
  rcases hp with rfl | ⟨front, rfl⟩
  · rw [eq_literal_of_spelled hproper hseparated hw hne h]
    exact ⟨[], rfl, ended_nil, rfl⟩
  · have hclose : spelled parts = front ++ '\x7d' :: w := by
      simp [h]
    obtain ⟨ps, name, qs, rfl, rfl, hqs⟩ := exists_reference_of_close hproper hclose
    have hrest : qs = [.literal w] := by
      refine eq_literal_of_spelled (fun q hq => hproper q (by simp [hq])) ?_ hw hne hqs
      exact Separated.tail (List.isChain_append.mp hseparated).2.1
    rw [hrest]
    exact ⟨ps ++ [.reference name], by simp, ended_reference ps name, by simp [Part.render]⟩

/-- **The parts of the longer pattern are those of the shorter one with two more between them.** -/
theorem exists_parts_of_insert {p w c s : Text} {parts : List Part}
    (hp : p = [] ∨ ∃ front, p = front ++ ['\x7d']) (hw : NoBraces w) (hne : w ≠ [])
    (hc : NoBraces c) (h : split (p ++ w ++ '\x7b' :: (c ++ '\x7d' :: s)) = .ok parts) :
    ∃ ps qs, parts = ps ++ .literal w :: .reference c :: qs ∧ Ended ps ∧
      split (p ++ s) = .ok (ps ++ qs) := by
  obtain ⟨hproper, hseparated, hspelled⟩ := split_eq_ok_iff.mp h
  obtain ⟨fs, qs, rfl, hfs, hqs⟩ := exists_parts_of_reference hproper hc hspelled
  obtain ⟨hfsSeparated, hqsSeparated, -⟩ := List.isChain_append.mp hseparated
  obtain ⟨ps, rfl, hended, hps⟩ := exists_ended_of_spelled
    (fun q hq => hproper q (List.mem_append_left _ hq)) hfsSeparated hp hw hne hfs
  refine ⟨ps, qs, by simp, hended, split_eq_ok_iff.mpr ⟨?_, ?_, ?_⟩⟩
  · intro q hq
    rcases List.mem_append.mp hq with hq | hq
    · exact hproper q (by simp [hq])
    · exact hproper q (by simp [hq])
  · have hpsSeparated : Separated ps := (List.isChain_append.mp hfsSeparated).1
    exact hpsSeparated.append hended (Separated.tail hqsSeparated)
  · rw [spelled_append, hps, hqs]

end Pattern

/-! ## Cutting what fits -/

/-- **Behind a variable the pieces are cut where the nodes are**: no literal before the cut is left
out for the sake of a variable behind it. -/
theorem Fits.exists_of_append [RegexEngine] : ∀ {ns ms : List Node} {ps : List Piece},
    Pattern.Ended (ns.map Node.part) → Fits (ns ++ ms) ps →
      ∃ qs rs, ps = qs ++ rs ∧ Fits ns qs ∧ Fits ms rs
  | [], ms, ps, _, h => ⟨[], ps, rfl, .nil, h⟩
  | .slot s :: ns, ms, ps, hended, h => by
    obtain ⟨span, ps, rfl, hcap, hfits⟩ := Fits.slot_iff.mp h
    obtain ⟨qs, rs, rfl, hqs, hrs⟩ := exists_of_append hended.tail hfits
    exact ⟨.captured s span :: qs, rs, rfl, .captured hcap hqs, hrs⟩
  | [.literal text], ms, ps, hended, h => absurd hended (Pattern.not_ended_literal text)
  | .literal text :: n :: ns, ms, ps, hended, h => by
    rcases Fits.literal_iff.mp h with ⟨ps, rfl, hfits⟩ | ⟨s, beyond, ps, hnext, rfl, hb, hr, hfits⟩
    · obtain ⟨qs, rs, rfl, hqs, hrs⟩ := exists_of_append hended.tail hfits
      exact ⟨.literal text :: qs, rs, rfl, .literal hqs, hrs⟩
    · obtain ⟨rfl, rfl⟩ := List.cons.inj hnext
      obtain ⟨qs, rs, rfl, hqs, hrs⟩ := exists_of_append hended.tail.tail hfits
      exact ⟨.skipped :: .captured s [] :: qs, rs, rfl, .skipped hb hr hqs, hrs⟩

/-- Blanks and a facultative variable behind a variable are left out. -/
theorem Fits.exists_of_insert [RegexEngine] {ns ms : List Node} {ps : List Piece} {w : Text}
    {v : Slot} (hended : Pattern.Ended (ns.map Node.part)) (hblank : ∀ c ∈ w, isBlank c = true)
    (hfree : v.var.required = false) (h : Fits (ns ++ ms) ps) :
    ∃ qs, Fits (ns ++ .literal w :: .slot v :: ms) qs ∧ Piece.covered qs = Piece.covered ps := by
  obtain ⟨qs, rs, rfl, hqs, hrs⟩ := h.exists_of_append hended
  refine ⟨_, hqs.append (.skipped hblank hfree hrs), ?_⟩
  simp [Piece.text]

namespace Template

variable {p w c s : Text} {registry : Registry} {fallback : Option Variable}
  {extent : Extent} {t u : Template}

/-- The text is a name that stands for a facultative variable. -/
structure NamesFacultative (registry : Registry) (fallback : Option Variable) (c : Text) :
    Prop where
  isName : Pattern.IsName c
  resolves : ∃ v, lookUp registry fallback c = some v ∧ v.required = false

/-- Whatever node the name gets, its variable is facultative. -/
theorem NamesFacultative.required_eq [RegexEngine] {pattern : Text} {v : Slot}
    (hc : NamesFacultative registry fallback v.name)
    (h : compile pattern registry fallback extent = .ok t) (hv : .slot v ∈ t.nodes) :
    v.var.required = false := by
  obtain ⟨x, hx, hfree⟩ := hc.resolves
  obtain rfl := Option.some.inj (hx.symm.trans (variable_of_compile h hv).1)
  exact hfree

/-- The nodes of the longer pattern are those of the shorter one with two more between them. -/
theorem exists_nodes_of_insert [RegexEngine] (hp : p = [] ∨ ∃ front, p = front ++ ['\x7d'])
    (hw : Pattern.NoBraces w) (hne : w ≠ []) (hc : Pattern.NoBraces c)
    (ht : compile (p ++ s) registry fallback extent = .ok t)
    (hu : compile (p ++ w ++ '\x7b' :: (c ++ '\x7d' :: s)) registry fallback extent = .ok u) :
    ∃ ns v ms, t.nodes = ns ++ ms ∧ u.nodes = ns ++ .literal w :: .slot v :: ms ∧ v.name = c ∧
      Pattern.Ended (ns.map Node.part) := by
  obtain ⟨-, -, -, parts, hparts, hnodes⟩ := compile_eq_ok_iff.mp hu
  obtain ⟨ps, qs, rfl, hended, hshorter⟩ := Pattern.exists_parts_of_insert hp hw hne hc hparts
  obtain ⟨-, -, -, _, hparts', hnodes'⟩ := compile_eq_ok_iff.mp ht
  cases hshorter.symm.trans hparts'
  obtain ⟨ns, ks, hkeep, hns, hks⟩ := mapM_append_eq_ok_iff.mp hnodes
  obtain ⟨n, ks, hn, hlater, rfl⟩ := List.forall₂_cons_left_iff.mp (mapM_eq_ok_iff.mp hks)
  obtain ⟨m, ms, hm, hms, rfl⟩ := List.forall₂_cons_left_iff.mp hlater
  obtain rfl := Except.ok.inj hn
  have hpart := part_of_compilePart hm
  cases m with
  | literal text => cases hpart
  | slot v =>
      have hrest := mapM_append_eq_ok_iff.mpr ⟨ns, ms, rfl, hns, mapM_eq_ok_iff.mpr hms⟩
      refine ⟨ns, v, ms, Except.ok.inj (hnodes'.symm.trans hrest), hkeep,
        Pattern.Part.reference.inj hpart, ?_⟩
      rw [map_part_of_mapM hns]
      exact hended

/-- **Blanks and a facultative variable reject nothing.**  They may be inserted where a pattern
begins and where one of its references ends: the longer pattern matches every input that the shorter
one matches. -/
theorem firstMatch_insert [RegexEngine] (hp : p = [] ∨ ∃ front, p = front ++ ['\x7d'])
    (hne : w ≠ []) (hblank : Text.allBlank w = true) (hc : NamesFacultative registry fallback c)
    (ht : compile (p ++ s) registry fallback extent = .ok t)
    (hu : compile (p ++ w ++ '\x7b' :: (c ++ '\x7d' :: s)) registry fallback extent = .ok u)
    {input : Text} (h : ∃ m, t.firstMatch input = some m) : ∃ m, u.firstMatch input = some m := by
  obtain ⟨ns, v, ms, htnodes, hunodes, rfl, hended⟩ := exists_nodes_of_insert hp
    (Pattern.NoBraces.of_allBlank hblank) hne hc.isName.noBraces ht hu
  have hfree : v.var.required = false := hc.required_eq hu (by simp [hunodes])
  obtain ⟨ps, hfits, hcovers⟩ := exists_firstMatch_iff.mp h
  rw [htnodes] at hfits
  obtain ⟨qs, hqs, hcovered⟩ := hfits.exists_of_insert hended (Text.allBlank_iff.mp hblank) hfree
  have hextent : u.extent = t.extent := by
    rw [(compile_eq_ok_iff.mp hu).2.2.1, (compile_eq_ok_iff.mp ht).2.2.1]
  refine exists_firstMatch_iff.mpr ⟨qs, ?_, ?_⟩
  · rw [hunodes]
    exact hqs
  · rw [hcovered, hextent]
    exact hcovers

attribute [local instance] Regex.engine

/-- A head and a tail of any characters, and a note that may be missing. -/
def halfNames : Registry :=
  [("head".toList, .mandatory .all), ("tail".toList, .mandatory .all),
    ("note".toList, .facultative .comment)]

/-- A head and a tail side by side. -/
def halves : Template :=
  ⟨"\x7bhead\x7d\x7btail\x7d".toList,
    [.slot ⟨"head".toList, .mandatory .all⟩, .slot ⟨"tail".toList, .mandatory .all⟩], .whole⟩

/-- The same with a note between them. -/
def notedHalves : Template :=
  ⟨"\x7bhead\x7d \x7bnote\x7d\x7btail\x7d".toList,
    [.slot ⟨"head".toList, .mandatory .all⟩, .literal [' '],
      .slot ⟨"note".toList, .facultative .comment⟩, .slot ⟨"tail".toList, .mandatory .all⟩], .whole⟩

/-- The head takes as little as it can before the tail, and as much as it can before the blank. -/
theorem notedHalves_firstMatch_insert :
    NamesFacultative halfNames none "note".toList ∧
      compile halves.pattern halfNames none .whole = .ok halves ∧
      compile notedHalves.pattern halfNames none .whole = .ok notedHalves ∧
      (∃ m, halves.firstMatch "xyz".toList = some m ∧ m.value "head".toList = some "x".toList) ∧
      ∃ m, notedHalves.firstMatch "xyz".toList = some m ∧
        m.value "head".toList = some "xy".toList := by
  have ht : compile ("\x7bhead\x7d".toList ++ "\x7btail\x7d".toList) halfNames none .whole =
      .ok halves := rfl
  have hu : compile ("\x7bhead\x7d".toList ++ " ".toList ++ '\x7b' ::
      ("note".toList ++ '\x7d' :: "\x7btail\x7d".toList)) halfNames none .whole =
        .ok notedHalves := rfl
  have hshorter : halves.firstMatch "xyz".toList =
      some ⟨[("tail".toList, "yz".toList), ("head".toList, "x".toList)], "xyz".toList⟩ := by
    rw [firstMatch_eq]
    decide +kernel
  have hlonger : ∀ m, notedHalves.firstMatch "xyz".toList = some m →
      m.value "head".toList = some "xy".toList := by
    rw [firstMatch_eq]
    decide +kernel
  have hname : NamesFacultative halfNames none "note".toList :=
    ⟨⟨⟨by decide, by decide⟩, by decide⟩, _, rfl, rfl⟩
  obtain ⟨m, hm⟩ := firstMatch_insert (Or.inr ⟨"\x7bhead".toList, rfl⟩) (by decide) (by decide)
    hname ht hu ⟨_, hshorter⟩
  exact ⟨hname, ht, hu, ⟨_, hshorter, by decide⟩, m, hm, hlonger m hm⟩

end Template

end ContentNegotiation
