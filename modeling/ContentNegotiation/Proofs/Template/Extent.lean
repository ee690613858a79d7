import ContentNegotiation.Proofs.Template.Compile
import ContentNegotiation.Proofs.Template.Priority

/-!
# Whole inputs and beginnings

A pattern may be compiled to cover all of an input or some beginning of it.  The nodes are the same
(`Template.compile_extent`), so a split of a beginning is a split of the whole text that it covers.

The splits of that text as a whole are some of the splits of the longer input, and the first of many
is also the first of the few it is among, since no two splits precede each other
(`Precedes.asymm`).  That makes both searches stop at the same split, whatever other candidates the
longer input offers.

Principal results: `head?_splits_whole` (the first split of a beginning is the first split of what
it covers) and `Template.firstMatch_beginning` (a match of a beginning is the match of what it
covers).
-/

namespace ContentNegotiation

/-! ## The order of splits has no cycles -/

theorem Piece.Before.asymm {after : List Node} {p q : Piece} (h : p.Before after q) :
    ¬ q.Before after p := by
  intro h'
  cases h with
  | found => cases h'
  | shorter hshort hlt =>
      cases h' with
      | shorter _ hlt' => omega
      | longer hlong _ => exact hshort hlong
  | longer hlong hlt =>
      cases h' with
      | shorter hshort _ => exact hshort hlong
      | longer _ hlt' => omega

/-- Lists that agree up to a place have the same members before it. -/
theorem getElem?_eq_of_take_eq {α : Type} {xs ys : List α} {i j : Nat}
    (h : xs.take j = ys.take j) (hij : i < j) : xs[i]? = ys[i]? := by
  have hget := congrArg (·[i]?) h
  simpa [List.getElem?_take, hij] using hget

theorem Precedes.asymm {nodes : List Node} {ps qs : List Piece} (h : Precedes nodes ps qs) :
    ¬ Precedes nodes qs ps := by
  rintro ⟨j, q', p', ht', hq', hp', hb'⟩
  obtain ⟨i, p, q, ht, hp, hq, hb⟩ := h
  rcases Nat.lt_trichotomy i j with hij | rfl | hij
  · -- the second comparison says that the splits agree where the first one finds a difference
    have hsame := getElem?_eq_of_take_eq ht' hij
    rw [hp, hq] at hsame
    obtain rfl := Option.some.inj hsame
    exact Piece.not_before_self hb
  · obtain rfl := Option.some.inj (hp.symm.trans hp')
    obtain rfl := Option.some.inj (hq.symm.trans hq')
    exact hb.asymm hb'
  · have hsame := getElem?_eq_of_take_eq ht hij
    rw [hp', hq'] at hsame
    obtain rfl := Option.some.inj hsame
    exact Piece.not_before_self hb'

/-! ## Splits of a beginning -/

section Splits

variable [RegexEngine] {nodes : List Node} {input : Text} {ps : List Piece}

theorem mem_splits_whole_covered_iff :
    ps ∈ splits .whole nodes (Piece.covered ps) ↔ Fits nodes ps := by
  rw [mem_splits_iff]
  exact and_iff_left rfl

/-- A split of a text as a whole is a split of every input that begins with the text. -/
theorem mem_splits_beginning {t : Text} (h : ps ∈ splits .whole nodes t) (ht : t <+: input) :
    ps ∈ splits .beginning nodes input := by
  obtain ⟨hfits, hcovers⟩ := mem_splits_iff.mp h
  obtain rfl : Piece.covered ps = t := hcovers
  exact mem_splits_iff.mpr ⟨hfits, ht⟩

/-- **The first split of a beginning is the first split of what it covers.** -/
theorem head?_splits_whole (h : (splits .beginning nodes input).head? = some ps) :
    (splits .whole nodes (Piece.covered ps)).head? = some ps := by
  obtain ⟨hfits, hcovers⟩ := mem_splits_iff.mp (List.mem_of_head? h)
  have hmem : ps ∈ splits .whole nodes (Piece.covered ps) := mem_splits_whole_covered_iff.mpr hfits
  obtain ⟨qs, hqs⟩ := Option.isSome_iff_exists.mp
    (List.isSome_head?.mpr (List.ne_nil_of_mem hmem))
  by_cases hne : ps = qs
  · rw [hqs, hne]
  · -- each of the two would go before the other
    exfalso
    have hlonger := mem_splits_beginning (List.mem_of_head? hqs) hcovers
    have hfirst := rel_of_head? (splits_pairwise nodes input) h hlonger (Ne.symm hne)
    have hwhole := rel_of_head? (splits_pairwise nodes _) hqs hmem hne
    exact hfirst.asymm hwhole

end Splits

/-! ## Compiling and matching -/

namespace Template

variable {pattern : Text} {registry : Registry} {fallback : Option Variable}

/-- **Matching a beginning is matching some beginning as a whole.**  If a pattern compiles at all,
it compiles to a template for beginnings and to one for whole inputs.  The first matches an input
exactly if the second matches some beginning of it, and then the second one makes the same match of
the part that the first one covers. -/
theorem firstMatch_beginning [RegexEngine] {extent : Extent} {t : Template}
    (h : compile pattern registry fallback extent = .ok t) :
    ∃ b w, compile pattern registry fallback .beginning = .ok b ∧
      compile pattern registry fallback .whole = .ok w ∧
      ∀ input, ((∃ m, b.firstMatch input = some m) ↔
          ∃ p, p <+: input ∧ ∃ m, w.firstMatch p = some m) ∧
        ∀ m, b.firstMatch input = some m → ∃ p, p <+: input ∧
          Text.byteSize p = m.byteLength ∧ p.length = m.charLength ∧ w.firstMatch p = some m := by
  refine ⟨_, _, compile_extent h .beginning, compile_extent h .whole, fun input => ?_⟩
  have hcovered : ∀ m, firstMatch { t with extent := .beginning } input = some m →
      m.covered <+: input ∧ firstMatch { t with extent := .whole } m.covered = some m := by
    intro m hm
    obtain ⟨ps, hps, rfl⟩ := firstMatch_eq_some_iff.mp hm
    have hwhole := head?_splits_whole hps
    exact ⟨(isSplit_of_head? hps).covers, firstMatch_eq_some_iff.mpr ⟨ps, hwhole, rfl⟩⟩
  refine ⟨⟨?_, ?_⟩, ?_⟩
  · rintro ⟨m, hm⟩
    obtain ⟨hbegins, hwhole⟩ := hcovered m hm
    exact ⟨m.covered, hbegins, m, hwhole⟩
  · rintro ⟨p, hp, hm⟩
    obtain ⟨ps, hps⟩ := exists_firstMatch_iff.mp hm
    have hmem := mem_splits_beginning (mem_splits_iff_isSplit.mpr hps) hp
    exact exists_firstMatch_iff.mpr ⟨ps, mem_splits_iff_isSplit.mp hmem⟩
  · intro m hm
    obtain ⟨hbegins, hwhole⟩ := hcovered m hm
    exact ⟨m.covered, hbegins, rfl, rfl, hwhole⟩

attribute [local instance] Regex.engine

/-- Two variables with a hyphen between them. -/
def hyphenated (extent : Extent) : Template :=
  ⟨"\x7bhead\x7d-\x7btail\x7d".toList,
    [.slot ⟨"head".toList, .mandatory .all⟩, .literal ['-'],
      .slot ⟨"tail".toList, .mandatory .token⟩], extent⟩

/-- The head is greedy up to the last hyphen behind which a token stands, and the token stops at the
blank. -/
theorem hyphenated_firstMatch_beginning :
    compile (hyphenated .whole).pattern
      [("head".toList, .mandatory .all), ("tail".toList, .mandatory .token)] none .whole =
        .ok (hyphenated .whole) ∧
      ∃ m, (hyphenated .beginning).firstMatch "a-b-c d".toList = some m ∧
        m.value "head".toList = some "a-b".toList ∧ m.value "tail".toList = some "c".toList ∧
        (hyphenated .whole).firstMatch "a-b-c d".toList = none ∧
        ∃ p, p <+: "a-b-c d".toList ∧ p.length = 5 ∧ (hyphenated .whole).firstMatch p = some m := by
  have hcompile : compile (hyphenated .whole).pattern
      [("head".toList, .mandatory .all), ("tail".toList, .mandatory .token)] none .whole =
        .ok (hyphenated .whole) := rfl
  have hmatch : (hyphenated .beginning).firstMatch "a-b-c d".toList =
      some ⟨[("tail".toList, "c".toList), ("head".toList, "a-b".toList)], "a-b-c".toList⟩ := by
    rw [firstMatch_eq]
    decide +kernel
  have hwhole : (hyphenated .whole).firstMatch "a-b-c d".toList = none := by
    rw [firstMatch_eq]
    decide +kernel
  obtain ⟨b, w, hb, hw, hagree⟩ := firstMatch_beginning hcompile
  cases (compile_extent hcompile .beginning).symm.trans hb
  cases hcompile.symm.trans hw
  obtain ⟨p, hp, -, hlength, hmatched⟩ := (hagree "a-b-c d".toList).2 _ hmatch
  exact ⟨hcompile, _, hmatch, by decide, by decide, hwhole, p, hp, hlength, hmatched⟩

end Template

end ContentNegotiation
