import ContentNegotiation.Proofs.Regex.Reader

/-!
# Escapes are read without regard to what stands behind them

A word boundary is the one escape that looks ahead: a brace behind it may open a name.  A hyphen
behind the last member of a class is looked into in the same way.

* `Foreseen` — if a text begins with such a character, what is looked into stands before the closing
  parenthesis that is left.

Principal results: `reads_readBoundary` and `reads_readEscape`.
-/

namespace ContentNegotiation

namespace Regex

section Escapes

variable {verbose : Bool} {u t r : Text} {e : Escape}

theorem reads_readHex {width : Nat} (h : readHex width t = some (e, r)) :
    Reads u (readHex width) t e r := by
  rw [readHex.eq_def] at h
  split at h
  · rename_i t
    obtain ⟨digits, rest, hspan⟩ : ∃ digits rest, t.span isHexDigit = (digits, rest) := ⟨_, _, rfl⟩
    simp only [hspan] at h
    split at h
    · rw [Option.ite_none_left_eq_some, Option.map_eq_some_iff] at h
      obtain ⟨hempty, c, hc, heq⟩ := h
      cases heq
      have hread : Reads u (fun v => readHex width ('\x7b' :: v)) t (.literal c) r := by
        refine (reads_span u hspan).behind fun hv => ?_
        rw [Option.some.injEq] at hv
        simp only [readHex, hv, if_neg hempty, hc, Option.map_some]
      exact hread.cons id
    · cases h
  · rename_i hopen
    rw [Option.ite_none_right_eq_some, Option.map_eq_some_iff] at h
    obtain ⟨hdigits, c, hc, heq⟩ := h
    cases heq
    refine ⟨List.drop_suffix width t, fun hv hr => ?_⟩
    obtain ⟨htake, hdrop⟩ := hv.drop hr
    refine ⟨_, ?_, hdrop⟩
    rw [readHex.eq_def]
    split
    · exact absurd rfl (hv.ne_cons (by decide) hopen _)
    · simp only [htake, hdigits, if_true, hc, Option.map_some]

/-- A bound that is long enough changes nothing. -/
theorem readBoundaryName_of_le {n m : Nat} {x : Text × Text}
    (h : readBoundaryName verbose n t = some x) (hm : t.length ≤ m) :
    readBoundaryName verbose m t = some x := by
  induction n generalizing t m x with
  | zero => cases t <;> cases h
  | succ n ih =>
      cases t with
      | nil => cases h
      | cons c t =>
          obtain ⟨m, rfl⟩ := Nat.exists_eq_add_of_le' (Nat.le_trans (Nat.le_add_left 1 _) hm)
          rw [List.length_cons] at hm
          rw [readBoundaryName] at h ⊢
          split_ifs at h ⊢ with hclose hname
          · exact h
          · obtain ⟨y, hy, rfl⟩ := Option.map_eq_some_iff.mp h
            have hle := (skips_skipIgnored [] verbose t).suffix.length_le
            rw [ih hy (by omega), Option.map_some]

theorem reads_readBoundaryName {n : Nat} {name : Text}
    (h : readBoundaryName verbose n t = some (name, r)) :
    Reads u (fun t => readBoundaryName verbose t.length t) t name r := by
  induction n generalizing t name with
  | zero => cases t <;> cases h
  | succ n ih =>
      cases t with
      | nil => cases h
      | cons c t =>
          rw [readBoundaryName] at h
          split_ifs at h with hclose hname
          · cases h
            exact Reads.char (fun v => by rw [List.length_cons, readBoundaryName, if_pos hclose]) _
          · obtain ⟨⟨name, r⟩, hrest, heq⟩ := Option.map_eq_some_iff.mp h
            cases heq
            have hread : Reads u (fun v => readBoundaryName verbose (v.length + 1) (c :: v)) t
                (c :: name) r := by
              refine Reads.skip (skips_skipIgnored u verbose t) (ih hrest) fun {v w} hv => ?_
              have hle := (skips_skipIgnored [] verbose v).suffix.length_le
              rw [readBoundaryName, if_neg hclose, if_pos hname,
                readBoundaryName_of_le hv hle, Option.map_some]
            exact hread.cons id

/-- A boundary that has a name is read from the first character of the name on. -/
theorem exists_cons_of_readBoundaryName {n : Nat} {name : Text}
    (h : readBoundaryName verbose n t = some (name, r)) (hname : name ≠ []) :
    ∃ c x, t = c :: x ∧ isBoundaryChar c = true := by
  cases n with
  | zero => cases t <;> cases h
  | succ n =>
      cases t with
      | nil => cases h
      | cons c t =>
          rw [readBoundaryName] at h
          split_ifs at h with hclose hc
          · cases h
            exact absurd rfl hname
          · exact ⟨c, t, rfl, hc⟩

theorem readBoundary_of_name {n : Nat} {name : Text} {a : Assertion}
    (hname : readBoundaryName verbose n (skipIgnored verbose t) = some (name, r))
    (ha : namedBoundary name = some a) :
    readBoundary verbose ('\x7b' :: t) = some (.assertion a, r) := by
  obtain ⟨c, x, hx, hc⟩ := exists_cons_of_readBoundaryName hname (by
    rintro rfl
    cases ha)
  rw [hx] at hname
  have hlength := readBoundaryName_of_le hname (Nat.le_refl _)
  simp only [readBoundary, hx, if_pos hc, Option.bind_eq_bind, Option.bind_eq_some_iff]
  exact ⟨_, hlength, a, ha, rfl⟩

theorem reads_readBoundary_name {n : Nat} {name : Text} {a : Assertion} (u : Text)
    (hname : readBoundaryName verbose n (skipIgnored verbose t) = some (name, r))
    (ha : namedBoundary name = some a) :
    Reads u (readBoundary verbose) ('\x7b' :: t) (.assertion a) r := by
  have hread : Reads u (fun v => readBoundary verbose ('\x7b' :: v)) t (.assertion a) r :=
    Reads.skip (skips_skipIgnored u verbose t) (reads_readBoundaryName hname) fun hv =>
      readBoundary_of_name hv ha
  exact hread.cons id

/-- If the text begins with the character, what stands behind it begins before the parenthesis. -/
def Foreseen (verbose : Bool) (c : Char) (u t : Text) : Prop :=
  ∀ w, t = c :: w → u.length + 1 < (skipIgnored verbose w).length

theorem reads_readBoundary (h : readBoundary verbose t = some (e, r)) :
    r <:+ t ∧ ∀ u, (e = .assertion .wordBoundary → Foreseen verbose '\x7b' u r) →
      Reads u (readBoundary verbose) t e r := by
  rw [readBoundary.eq_def] at h
  split at h
  · rename_i t
    split at h
    · rename_i c x hskip
      split_ifs at h with hname
      · simp only [Option.bind_eq_bind, Option.bind_eq_some_iff] at h
        obtain ⟨⟨name, r⟩, hread, a, ha, heq⟩ := h
        cases heq
        rw [← hskip] at hread
        have hreads := fun u => reads_readBoundary_name u hread ha
        exact ⟨(hreads []).suffix, fun u _ => hreads u⟩
      · cases h
        refine ⟨List.suffix_rfl, fun u hforeseen => ⟨List.suffix_rfl, fun hv hr => ?_⟩⟩
        have hlt := hforeseen rfl t rfl
        have hsuffix := (skips_skipIgnored u verbose t).suffix.length_le
        obtain ⟨v, rfl, hv'⟩ := hv.tail (by omega)
        have halike := (skips_skipIgnored u verbose t).alike hv' (by omega)
        rw [hskip] at halike hlt
        obtain ⟨x, hx, -⟩ := halike.tail (by simpa using hlt)
        exact ⟨_, by simp only [readBoundary, hx, if_neg hname], hv⟩
    · cases h
  · rename_i hbrace
    cases h
    refine ⟨List.suffix_rfl, fun u _ => ⟨List.suffix_rfl, fun {s v} hv _ => ⟨v, ?_, hv⟩⟩⟩
    rw [readBoundary.eq_def]
    split
    · exact absurd rfl (hv.ne_cons (by decide) hbrace _)
    · rfl

theorem reads_readEscape (h : readEscape verbose t = some (e, r)) :
    r <:+ t ∧ ∀ u, (e = .assertion .wordBoundary → Foreseen verbose '\x7b' u r) →
      Reads u (readEscape verbose) t e r := by
  rw [readEscape.eq_def] at h
  split at h
  · cases h
  · rename_i c t
    split at h
    case h_1 | h_2 | h_3 =>
      exact ⟨(reads_readHex (u := []) h).suffix.trans (List.suffix_cons ..), fun u _ =>
        (reads_readHex h).cons id⟩
    case h_18 =>
      obtain ⟨hsuffix, hread⟩ := reads_readBoundary h
      exact ⟨hsuffix.trans (List.suffix_cons ..), fun u hu => (hread u hu).cons id⟩
    case h_22 =>
      rw [Option.ite_none_right_eq_some] at h
      obtain ⟨hc, heq⟩ := h
      cases heq
      refine ⟨List.suffix_cons .., fun u _ => Reads.char (fun v => ?_) _⟩
      rw [readEscape, if_pos hc] <;> assumption
    all_goals
      cases h
      exact ⟨List.suffix_cons .., fun u _ => Reads.char (fun v => rfl) _⟩

end Escapes

end Regex

end ContentNegotiation
