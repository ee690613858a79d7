import ContentNegotiation.Proofs.Regex.Token

/-!
# Cutting an expression into tokens

The cutting of a text into tokens as a relation between places, which can be cut at every token and
put together again.

* `Place` — the text that is left, with the mode it is read in and the modes to return to.
* `Cuts` — from one place to another these tokens are cut off.

Principal results: `tokens_eq_some_iff` (the tokens of a text are those cut off up to its end),
`Cuts.exists_append` (they are cut off in one way only) and `Cuts.alike` (what stands behind a
closing parenthesis that is left does not matter for the tokens before it).
-/

namespace ContentNegotiation

namespace Regex

/-- A place in the cutting of a text: the mode, the modes to return to and the text that is left. -/
structure Place where
  verbose : Bool
  outer : List Bool
  rest : Text

namespace Place

/-- The text from the next token on. -/
def next (p : Place) : Text :=
  skipIgnored p.verbose p.rest

/-- The place behind a token. -/
def after (p : Place) (token : Token) (r : Text) : Place :=
  ⟨(modeAfter p.verbose p.outer token).1, (modeAfter p.verbose p.outer token).2, r⟩

end Place

/-- From one place to another these tokens are cut off. -/
inductive Cuts : Place → List Token → Place → Prop where
  | nil {p : Place} : Cuts p [] p
  | cons {p q : Place} {token : Token} {r : Text} {ts : List Token} :
      readToken p.verbose p.next = some (token, r) → Cuts (p.after token r) ts q →
        Cuts p (token :: ts) q

namespace Cuts

variable {p q q' : Place} {ts ts' : List Token} {token : Token} {r : Text}

theorem suffix_next_of_readToken (h : readToken p.verbose p.next = some (token, r)) :
    r.length < p.next.length ∧ r <:+ p.next := by
  cases hnext : p.next with
  | nil =>
      rw [hnext] at h
      cases h
  | cons c t =>
      rw [hnext] at h
      have hsuffix := (reads_readToken h).1
      exact ⟨Nat.lt_succ_of_le hsuffix.length_le, hsuffix.trans (List.suffix_cons c t)⟩

theorem next_suffix (p : Place) : p.next <:+ p.rest :=
  (skips_skipIgnored [] p.verbose p.rest).suffix

theorem suffix (h : Cuts p ts q) : q.rest <:+ p.rest := by
  induction h with
  | nil => exact List.suffix_rfl
  | cons htoken _ ih => exact ih.trans ((suffix_next_of_readToken htoken).2.trans (next_suffix _))

theorem trans (h : Cuts p ts q) (h' : Cuts q ts' q') : Cuts p (ts ++ ts') q' := by
  induction h with
  | nil => exact h'
  | cons htoken _ ih => exact .cons htoken (ih h')

/-- The tokens of a text are cut off in one way only. -/
theorem exists_append (h : Cuts p ts q) (h' : Cuts p ts' q') (hend : q'.next = []) :
    ∃ rest, ts' = ts ++ rest ∧ Cuts q rest q' := by
  induction h generalizing ts' with
  | nil => exact ⟨ts', rfl, h'⟩
  | cons htoken _ ih =>
      cases h' with
      | nil =>
          rw [hend] at htoken
          cases htoken
      | cons htoken' hrest =>
          cases htoken.symm.trans htoken'
          obtain ⟨rest, rfl, hcuts⟩ := ih hrest
          exact ⟨rest, rfl, hcuts⟩

end Cuts

theorem Cuts.of_end {p q : Place} {ts : List Token} (h : Cuts p ts q) (hend : p.next = []) :
    ts = [] := by
  cases h with
  | nil => rfl
  | cons htoken =>
      rw [hend] at htoken
      cases htoken

/-- At the end of a text there are no tokens. -/
theorem readTokens_of_end_eq_some_iff {bound : Nat} {p : Place} {ts : List Token}
    (hend : p.next = []) :
    readTokens bound p.verbose p.outer p.rest = some ts ↔ ∃ q, Cuts p ts q ∧ q.next = [] := by
  have hnone : readTokens bound p.verbose p.outer p.rest = some [] := by
    rw [Place.next] at hend
    rw [readTokens.eq_def]
    simp only [hend]
  rw [hnone, Option.some.injEq]
  constructor
  · rintro rfl
    exact ⟨p, .nil, hend⟩
  · rintro ⟨q, hcuts, -⟩
    exact (hcuts.of_end hend).symm

theorem readTokens_succ {bound : Nat} {p : Place} (hend : p.next ≠ []) :
    readTokens (bound + 1) p.verbose p.outer p.rest =
      (readToken p.verbose p.next).bind fun (token, r) =>
        (readTokens bound (p.after token r).verbose (p.after token r).outer r).map
          (token :: ·) := by
  obtain ⟨c, t, hnext⟩ := List.exists_cons_of_ne_nil hend
  rw [hnext]
  rw [Place.next] at hnext
  rw [readTokens.eq_def]
  simp only [hnext]
  cases readToken p.verbose (c :: t) <;> rfl

theorem readTokens_eq_some_iff {bound : Nat} {p : Place} {ts : List Token}
    (hbound : p.rest.length ≤ bound) :
    readTokens bound p.verbose p.outer p.rest = some ts ↔ ∃ q, Cuts p ts q ∧ q.next = [] := by
  induction bound generalizing p ts with
  | zero =>
      refine readTokens_of_end_eq_some_iff ?_
      have hrest := List.length_eq_zero_iff.mp (Nat.le_zero.mp hbound)
      exact List.eq_nil_of_suffix_nil (hrest ▸ Cuts.next_suffix p)
  | succ bound ih =>
      by_cases hend : p.next = []
      · exact readTokens_of_end_eq_some_iff hend
      have hshort : ∀ {token r}, readToken p.verbose p.next = some (token, r) →
          r.length ≤ bound := by
        intro token r htoken
        have hlt := (Cuts.suffix_next_of_readToken htoken).1
        have hle := (Cuts.next_suffix p).length_le
        omega
      rw [readTokens_succ hend, Option.bind_eq_some_iff]
      constructor
      · rintro ⟨⟨token, r⟩, htoken, h⟩
        obtain ⟨rest, hrest, rfl⟩ := Option.map_eq_some_iff.mp h
        obtain ⟨q, hcuts, hq⟩ := (ih (p := p.after token r) (hshort htoken)).mp hrest
        exact ⟨q, .cons htoken hcuts, hq⟩
      · rintro ⟨q, hcuts, hq⟩
        cases hcuts with
        | nil => exact absurd hq hend
        | @cons _ _ token r rest htoken hcuts =>
            have hrest := (ih (p := p.after token r) (hshort htoken)).mpr ⟨q, hcuts, hq⟩
            exact ⟨(token, r), htoken, Option.map_eq_some_iff.mpr ⟨rest, hrest, rfl⟩⟩

theorem tokens_eq_some_iff {source : Text} {ts : List Token} :
    tokens source = some ts ↔ ∃ q, Cuts ⟨false, [], source⟩ ts q ∧ q.next = [] :=
  readTokens_eq_some_iff (p := ⟨false, [], source⟩) (Nat.le_refl _)

/-- Behind a word boundary the place of a brace is before the parenthesis that is left. -/
theorem Cuts.foreseen {p q : Place} {ts : List Token} {u : Text} (h : Cuts p ts q)
    (hq : q.next = ')' :: u) : Foreseen p.verbose '\x7b' u p.rest := by
  intro w hw
  have hbrace : p.next = '\x7b' :: w := by
    rw [Place.next, hw, skipIgnored_eq_self _ (by decide) (by decide)]
  cases h with
  | nil =>
      rw [hbrace] at hq
      cases hq
  | @cons _ _ token r _ htoken hcuts =>
      rw [hbrace] at htoken
      have hlt := (reads_readCounts [] htoken).1
      have hle := hcuts.suffix.length_le
      have hend := (Cuts.next_suffix q).length_le
      rw [hq, List.length_cons] at hend
      change q.rest.length ≤ r.length at hle
      omega

/-- **What stands behind a closing parenthesis that is left does not matter for the tokens before
it.** -/
theorem Cuts.alike {p q : Place} {ts : List Token} {u s v : Text} (h : Cuts p ts q)
    (hq : q.next = ')' :: u) (hv : Alike u s p.rest v) :
    ∃ w, Cuts { p with rest := v } ts { q with rest := w } ∧ skipIgnored q.verbose w = s := by
  have hleft : ∀ {p : Place} {ts}, Cuts p ts q → u.length < p.rest.length := by
    intro p ts h
    have hle := ((Cuts.next_suffix q).trans h.suffix).length_le
    rw [hq, List.length_cons] at hle
    exact hle
  induction h generalizing v with
  | @nil p =>
      have halike := (skips_skipIgnored u p.verbose p.rest).alike hv (by
        rw [← Place.next, hq]
        exact Nat.lt_succ_self _)
      rw [← Place.next, hq] at halike
      exact ⟨v, .nil, halike.eq_of_here⟩
  | @cons p q token r ts htoken hcuts ih =>
      obtain ⟨hlt, hsuffix⟩ := Cuts.suffix_next_of_readToken htoken
      have hr : u.length < r.length := hleft hcuts
      have halike := (skips_skipIgnored u p.verbose p.rest).alike hv (Nat.lt_trans hr hlt)
      change Alike u s p.next _ at halike
      obtain ⟨c, t, hnext⟩ := List.exists_cons_of_ne_nil (List.ne_nil_of_length_pos
        (Nat.zero_lt_of_lt hlt))
      rw [hnext] at htoken halike
      obtain ⟨w, hw, hrest⟩ := ((reads_readToken htoken).2 u fun hboundary => by
        have hforeseen := hcuts.foreseen hq
        rw [hboundary] at hforeseen
        exact hforeseen).alike halike hr
      obtain ⟨x, hcuts', hx⟩ := ih hq hrest hleft
      exact ⟨x, .cons hw hcuts', hx⟩

end Regex

end ContentNegotiation
