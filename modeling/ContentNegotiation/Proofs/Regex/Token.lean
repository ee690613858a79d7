import ContentNegotiation.Proofs.Regex.Bracket

/-!
# Tokens are read without regard to what stands behind them

Each kind of token has its own reader: the opening of a group with its flags or its name, the counts
of a repetition, a class, an escape.  None of them looks behind a closing parenthesis that it
leaves.

* `readSettings` — the reader of flags, with the character that ends them.
* `readCountsEnd`, `readMost`, `finishCounts` — what is read of counts behind the first of them,
  behind the comma and behind the closing brace.

Principal result: `reads_readToken` (the reader of tokens).
-/

namespace ContentNegotiation

namespace Regex

section Tokens

variable {verbose : Bool} {u t r : Text} {token : Token} {n : Nat}

/-- Flags and the character after them, as a reader. -/
def readSettings (negated : Bool) (s : FlagSettings) (t : Text) :
    Option ((FlagSettings × Char) × Text) :=
  (readFlags t negated s).map fun (s, c, t) => ((s, c), t)

theorem readSettings_eq_some_iff {negated : Bool} {s s' : FlagSettings} {c : Char} :
    readSettings negated s t = some ((s', c), r) ↔ readFlags t negated s = some (s', c, r) := by
  simp [readSettings]

section Flags

variable {negated : Bool} {s s' : FlagSettings} {c : Char}

theorem readFlags_close (hc : (decide (c = ':') || decide (c = ')')) = true) (t : Text) :
    readFlags (c :: t) negated s = some (s, c, t) := by
  rw [readFlags.eq_def]
  simp only [if_pos hc]

theorem readFlags_hyphen (hcolon : ∀ w, t ≠ ':' :: w) (hparen : ∀ w, t ≠ ')' :: w) :
    readFlags ('-' :: t) negated s = if negated then none else readFlags t true s := by
  rw [readFlags] <;> first | assumption | rfl

theorem readFlags_letter (hc : ¬(decide (c = ':') || decide (c = ')')) = true) (hminus : c ≠ '-')
    (t : Text) : readFlags (c :: t) negated s = (Flag.ofChar c).bind fun flag =>
      if (s.lookup flag).isSome then none else readFlags t negated (s ++ [(flag, !negated)]) := by
  rw [readFlags.eq_def]
  simp only [if_neg hc, if_neg hminus]
  cases Flag.ofChar c <;> rfl

theorem reads_readSettings (u : Text) (h : readFlags t negated s = some (s', c, r)) :
    Reads u (readSettings negated s) t (s', c) r := by
  induction t generalizing negated s with
  | nil => cases h
  | cons d t ih =>
      by_cases hend : (decide (d = ':') || decide (d = ')')) = true
      · rw [readFlags_close hend] at h
        cases h
        exact Reads.char (fun v => readSettings_eq_some_iff.mpr (readFlags_close hend v)) _
      by_cases hminus : d = '-'
      · subst hminus
        have hcolon : ∀ w, t ≠ ':' :: w := by
          rintro w rfl
          cases h
        have hparen : ∀ w, t ≠ ')' :: w := by
          rintro w rfl
          cases h
        rw [readFlags_hyphen hcolon hparen, Option.ite_none_left_eq_some] at h
        obtain ⟨hnegated, h⟩ := h
        refine (ih h).cons_alike fun {x v w} hv hw => ?_
        have hparen' : ∀ w, v ≠ ')' :: w := by
          obtain ⟨e, t, rfl⟩ := List.exists_cons_of_ne_nil (l := t) (by rintro rfl; cases h)
          have he : e ≠ ')' := fun he => hparen t (by rw [he])
          obtain ⟨y, rfl, -⟩ := hv.tail_of_ne he
          exact fun w hw => he (List.cons.inj hw).1
        rw [readSettings_eq_some_iff] at hw ⊢
        rw [readFlags_hyphen (hv.ne_cons (by decide) hcolon) hparen', if_neg hnegated, hw]
      · rw [readFlags_letter hend hminus, Option.bind_eq_some_iff] at h
        obtain ⟨flag, hflag, h⟩ := h
        rw [Option.ite_none_left_eq_some] at h
        refine (ih h.2).cons fun hv => ?_
        rw [readSettings_eq_some_iff] at hv ⊢
        rw [readFlags_letter hend hminus, hflag, Option.bind_some, if_neg h.1, hv]

end Flags

theorem reads_readGroupName (u : Text) {name : Text} (h : readGroupName t = some (name, r)) :
    Reads u readGroupName t name r := by
  obtain ⟨name', rest, hspan⟩ : ∃ name rest, t.span (· != '>') = (name, rest) := ⟨_, _, rfl⟩
  simp only [readGroupName, hspan] at h
  split at h
  · rw [Option.ite_none_right_eq_some] at h
    obtain ⟨hchars, heq⟩ := h
    cases heq
    refine (reads_span u hspan).behind fun hv => ?_
    rw [Option.some.injEq] at hv
    simp only [readGroupName, hv, if_pos hchars]
  · cases h

theorem readGroupStart_name (hequals : ∀ w, t ≠ '=' :: w) (hbang : ∀ w, t ≠ '!' :: w) :
    readGroupStart ('?' :: '<' :: t) =
      (readGroupName t).map fun (name, t) => (.openGroup (some name) [], t) := by
  rw [readGroupStart] <;> assumption

theorem readGroupStart_flags (hequals : ∀ w, t ≠ '=' :: w) (hbang : ∀ w, t ≠ '!' :: w)
    (hangle : ∀ w, t ≠ '<' :: w) (hname : ∀ w, t ≠ 'P' :: '<' :: w) :
    readGroupStart ('?' :: t) = (readSettings false [] t).bind fun ((s, c), t) =>
      if c = ':' then some (.openGroup none s, t)
      else if s.isEmpty then none else some (.flags s, t) := by
  rw [readGroupStart]
  · rw [readSettings]
    split
    · rename_i hflags
      rw [hflags]
      rfl
    · rename_i hcolon hflags
      simp only [hflags, Option.map_some, Option.bind_some, if_neg hcolon]
    · rename_i hflags
      rw [hflags]
      rfl
  all_goals simp_all

theorem readGroupStart_plain (hmark : ∀ w, t ≠ '?' :: w) :
    readGroupStart t = some (.openGroup none [], t) := by
  rw [readGroupStart] <;> simp_all

/-- Look-arounds are no part of the syntax. -/
theorem ne_look_of_readGroupStart (h : readGroupStart ('?' :: t) = some (token, r)) :
    (∀ w, t ≠ '=' :: w) ∧ ∀ w, t ≠ '!' :: w := by
  constructor
  · rintro w rfl
    cases h
  · rintro w rfl
    cases h

theorem ne_lookBehind_of_readGroupStart (h : readGroupStart ('?' :: '<' :: t) = some (token, r)) :
    (∀ w, t ≠ '=' :: w) ∧ ∀ w, t ≠ '!' :: w := by
  constructor
  · rintro w rfl
    cases h
  · rintro w rfl
    cases h

theorem reads_readGroupStart_name (u : Text)
    (h : readGroupStart ('?' :: '<' :: t) = some (token, r)) :
    Reads u (fun v => readGroupStart ('?' :: v)) ('<' :: t) token r := by
  obtain ⟨hequals, hbang⟩ := ne_lookBehind_of_readGroupStart h
  rw [readGroupStart_name hequals hbang, Option.map_eq_some_iff] at h
  obtain ⟨⟨name, x⟩, hname, heq⟩ := h
  cases heq
  refine (reads_readGroupName u hname).cons_alike fun hv hw => ?_
  rw [readGroupStart_name (hv.ne_cons (by decide) hequals) (hv.ne_cons (by decide) hbang), hw,
    Option.map_some]

theorem reads_readGroupStart_flags (u : Text) (hangle : ∀ w, t ≠ '<' :: w)
    (hname : ∀ w, t ≠ 'P' :: '<' :: w) (h : readGroupStart ('?' :: t) = some (token, r)) :
    Reads u (fun v => readGroupStart ('?' :: v)) t token r := by
  obtain ⟨hequals, hbang⟩ := ne_look_of_readGroupStart h
  rw [readGroupStart_flags hequals hbang hangle hname, Option.bind_eq_some_iff] at h
  obtain ⟨⟨⟨s, c⟩, x⟩, hflags, hend⟩ := h
  obtain ⟨rfl, hmake⟩ : x = r ∧ ∀ w : Text,
      (if c = ':' then some (Token.openGroup none s, w)
        else if s.isEmpty then none else some (.flags s, w)) = some (token, w) := by
    simp only at hend
    split_ifs at hend ⊢ <;> cases hend <;> exact ⟨rfl, fun w => rfl⟩
  have hread := reads_readSettings u (readSettings_eq_some_iff.mp hflags)
  refine hread.map_alike fun {y v w} hv hw => ?_
  rw [readGroupStart_flags (hv.ne_cons (by decide) hequals) (hv.ne_cons (by decide) hbang)
    (hv.ne_cons (by decide) hangle) (hv.ne_cons_cons (by decide) (by decide) hname), hw]
  exact hmake w

theorem reads_readGroupStart (u : Text) (h : readGroupStart t = some (token, r)) :
    Reads u readGroupStart t token r := by
  by_cases hmark : ∃ v, t = '?' :: v
  · obtain ⟨t, rfl⟩ := hmark
    have hread : Reads u (fun v => readGroupStart ('?' :: v)) t token r := by
      by_cases hname : ∃ v, t = 'P' :: '<' :: v
      · obtain ⟨t, rfl⟩ := hname
        obtain ⟨⟨name, x⟩, hname, heq⟩ := Option.map_eq_some_iff.mp h
        cases heq
        exact (reads_readGroupName u hname).cons_cons fun hv => by rw [readGroupStart, hv]; rfl
      by_cases hangle : ∃ v, t = '<' :: v
      · obtain ⟨t, rfl⟩ := hangle
        exact reads_readGroupStart_name u h
      · rw [not_exists] at hname hangle
        exact reads_readGroupStart_flags u hangle hname h
    exact hread.cons id
  · rw [not_exists] at hmark
    rw [readGroupStart_plain hmark] at h
    cases h
    refine ⟨List.suffix_rfl, fun hv _ => ⟨_, ?_, hv⟩⟩
    exact readGroupStart_plain (hv.ne_cons (by decide) hmark)

theorem ne_closeGroup_of_readGroupStart (h : readGroupStart t = some (token, r)) :
    token ≠ .closeGroup := by
  rintro rfl
  rw [readGroupStart.eq_def] at h
  split at h
  all_goals try cases h
  · obtain ⟨_, -, heq⟩ := Option.map_eq_some_iff.mp h
    cases heq
  · obtain ⟨_, -, heq⟩ := Option.map_eq_some_iff.mp h
    cases heq
  · split at h
    · cases h
    · split_ifs at h
      cases h
    · cases h

theorem skips_skipLazy (u t : Text) : Skips u skipLazy t := by
  by_cases hlazy : ∃ v, t = '?' :: v
  · obtain ⟨v, rfl⟩ := hlazy
    refine ⟨List.suffix_cons '?' v, fun hv _ => ?_⟩
    obtain ⟨w, rfl, hw⟩ := hv.tail_of_ne (by decide)
    exact hw
  · rw [not_exists] at hlazy
    have hself : ∀ v, (∀ w, v ≠ '?' :: w) → skipLazy v = v := by
      intro v hv
      rw [skipLazy]
      exact hv
    refine ⟨by simp [hself t hlazy], fun hv _ => ?_⟩
    rw [hself t hlazy, hself _ (hv.ne_cons (by decide) hlazy)]
    exact hv

theorem reads_readCount (u : Text) (h : readCount t = some (n, r)) : Reads u readCount t n r := by
  obtain ⟨digits, rest, hspan⟩ :
    ∃ digits rest, (Text.trimStart t).span Char.isDigit = (digits, rest) := ⟨_, _, rfl⟩
  simp only [readCount, hspan] at h
  rw [Option.ite_none_left_eq_some] at h
  obtain ⟨hdigits, heq⟩ := h
  cases heq
  have hread : Reads u (fun v => some ((Text.trimStart v).span Char.isDigit)) t digits rest :=
    (reads_span u hspan).skip (skips_dropWhile u isBlank t) id
  refine hread.skipped (skips_dropWhile u isBlank rest) fun hv => ?_
  rw [Option.some.injEq] at hv
  simp only [readCount, hv, if_neg hdigits]

theorem length_lt_of_readCount (h : readCount t = some (n, r)) : r.length < t.length := by
  obtain ⟨digits, rest, hspan⟩ :
    ∃ digits rest, (Text.trimStart t).span Char.isDigit = (digits, rest) := ⟨_, _, rfl⟩
  simp only [readCount, hspan, Option.ite_none_left_eq_some, Bool.or_eq_true, not_or] at h
  obtain ⟨⟨hdigits, -⟩, heq⟩ := h
  cases heq
  rw [List.span_eq_takeWhile_dropWhile, Prod.mk.injEq] at hspan
  have hlength := congrArg List.length (List.takeWhile_append_dropWhile (p := Char.isDigit)
    (l := Text.trimStart t))
  rw [hspan.1, hspan.2, List.length_append] at hlength
  have hpos : 0 < digits.length := by
    rw [List.length_pos_iff]
    simpa using hdigits
  have htrim := (skips_dropWhile [] isBlank t).suffix.length_le
  have htrim' := (skips_dropWhile [] isBlank rest).suffix.length_le
  rw [Text.trimStart] at hlength ⊢
  omega

/-- The end of counts: a question mark may follow. -/
def finishCounts (verbose : Bool) (least : Nat) (most : Option Nat) (t : Text) :
    Option (Token × Text) :=
  if most.all (least ≤ ·) then
    some (.repetition least most, skipLazy (skipIgnored verbose t))
  else none

/-- What is read behind the comma of counts. -/
def readMost (verbose : Bool) (least : Nat) (t : Text) : Option (Token × Text) :=
  match t with
  | '\x7d' :: t => finishCounts verbose least none t
  | t =>
    match readCount t with
    | some (most, '\x7d' :: t) => finishCounts verbose least (some most) t
    | _ => none

/-- What is read behind the first count. -/
def readCountsEnd (verbose : Bool) (least : Nat) (t : Text) : Option (Token × Text) :=
  match t with
  | '\x7d' :: t => finishCounts verbose least (some least) t
  | ',' :: t => readMost verbose least (skipIgnored verbose t)
  | _ => none

theorem readCounts_eq (verbose : Bool) (t : Text) :
    readCounts verbose t = (readCount (skipIgnored verbose t)).bind fun (least, t) =>
      readCountsEnd verbose least t := by
  rw [readCounts, Option.bind_eq_bind]
  congr 1

theorem reads_finishCounts (u : Text) {least : Nat} {most : Option Nat}
    (h : finishCounts verbose least most t = some (token, r)) :
    Reads u (finishCounts verbose least most) t token r := by
  rw [finishCounts, Option.ite_none_right_eq_some] at h
  obtain ⟨hle, heq⟩ := h
  cases heq
  have hskips := (skips_skipIgnored u verbose t).comp (skips_skipLazy u _)
  refine (hskips.reads (Token.repetition least most)).map fun hv => ?_
  rw [finishCounts, if_pos hle, hv]

theorem ne_closeGroup_of_finishCounts {least : Nat} {most : Option Nat}
    (h : finishCounts verbose least most t = some (token, r)) : token ≠ .closeGroup := by
  rintro rfl
  rw [finishCounts] at h
  split_ifs at h
  cases h

theorem readMost_of_ne {least most : Nat} {x : Text} (ht : ∀ w, t ≠ '\x7d' :: w)
    (hmost : readCount t = some (most, '\x7d' :: x)) :
    readMost verbose least t = finishCounts verbose least (some most) x := by
  rw [readMost]
  · simp only [hmost]
  · exact ht

theorem reads_readMost (u : Text) {least : Nat} (h : readMost verbose least t = some (token, r)) :
    Reads u (readMost verbose least) t token r := by
  fun_cases readMost verbose least t with
  | case1 t => exact (reads_finishCounts u h).cons id
  | case2 t hclose most x hmost =>
      rw [readMost_of_ne hclose hmost] at h
      have hread := reads_readCount u hmost
      have hfinish := reads_finishCounts u h
      have hbehind : x <:+ '\x7d' :: x := List.suffix_cons ..
      refine ⟨hfinish.suffix.trans (hbehind.trans hread.suffix), fun hv hr => ?_⟩
      obtain ⟨w, hw, halike⟩ := hread.alike hv
        (Nat.lt_of_lt_of_le hr (hfinish.suffix.trans hbehind).length_le)
      obtain ⟨w, rfl, halike'⟩ := halike.tail_of_ne (by decide)
      obtain ⟨y, hy, hend⟩ := hfinish.alike halike' hr
      exact ⟨y, by rw [readMost_of_ne (hv.ne_cons (by decide) hclose) hw, hy], hend⟩
  | case3 t hclose hmost =>
      rw [readMost] at h
      split at h
      · rename_i most x hx
        exact absurd hx (hmost most x)
      · cases h
      · exact hclose

theorem reads_readCountsEnd (u : Text) {least : Nat}
    (h : readCountsEnd verbose least t = some (token, r)) :
    Reads u (readCountsEnd verbose least) t token r := by
  rw [readCountsEnd.eq_def] at h
  split at h
  · exact (reads_finishCounts u h).cons id
  · rename_i t
    have hread : Reads u (fun v => readMost verbose least (skipIgnored verbose v)) t token r :=
      (reads_readMost u h).skip (skips_skipIgnored u verbose t) id
    exact hread.cons id
  · cases h

theorem reads_readCounts (u : Text) (h : readCounts verbose t = some (token, r)) :
    r.length < (skipIgnored verbose t).length ∧ Reads u (readCounts verbose) t token r := by
  rw [readCounts_eq, Option.bind_eq_some_iff] at h
  obtain ⟨⟨least, rest⟩, hleast, h⟩ := h
  have hskips := skips_skipIgnored u verbose t
  have hread := reads_readCount u hleast
  have hend := reads_readCountsEnd u h
  have hfirst : Reads u (fun v => readCount (skipIgnored verbose v)) t least rest :=
    hread.skip hskips id
  refine ⟨Nat.lt_of_le_of_lt hend.suffix.length_le (length_lt_of_readCount hleast),
    hfirst.trans hend fun hv hw => ?_⟩
  rw [readCounts_eq, hv]
  exact hw

theorem ne_closeGroup_of_readCounts (h : readCounts verbose t = some (token, r)) :
    token ≠ .closeGroup := by
  rw [readCounts_eq, Option.bind_eq_some_iff] at h
  obtain ⟨⟨least, w⟩, -, h⟩ := h
  simp only [readCountsEnd, readMost] at h
  split at h
  · exact ne_closeGroup_of_finishCounts h
  · split at h
    · exact ne_closeGroup_of_finishCounts h
    · split at h
      · exact ne_closeGroup_of_finishCounts h
      · cases h
  · cases h

/-- An escape outside of a class, as a token. -/
def ofEscape : Escape → Token
  | .literal c => .characters (.single c) 0
  | .characters k => .characters k 0
  | .assertion a => .assertion a

theorem readToken_escape (verbose : Bool) (t : Text) :
    readToken verbose ('\\' :: t) = (readEscape verbose t).map fun (e, t) => (ofEscape e, t) := by
  rw [readToken]
  split <;> simp_all [ofEscape]

/-- **What stands behind a closing parenthesis that is left does not matter for a token.**  A word
boundary before a brace is the one case in which the brace has to be looked into. -/
theorem reads_readToken {c : Char} (h : readToken verbose (c :: t) = some (token, r)) :
    r <:+ t ∧ ∀ u, (token = .assertion .wordBoundary → Foreseen verbose '\x7b' u r) →
      Reads u (readToken verbose) (c :: t) token r := by
  -- the first character says which reader goes on
  have hgoes : ∀ read : Text → Option (Token × Text), (∀ u, Reads u read t token r) →
      (∀ v, readToken verbose (c :: v) = read v) →
      r <:+ t ∧ ∀ u, (token = .assertion .wordBoundary → Foreseen verbose '\x7b' u r) →
        Reads u (readToken verbose) (c :: t) token r := fun read hread heq =>
    ⟨(hread []).suffix, fun u _ => (hread u).cons fun hv => (heq _).trans hv⟩
  have hlazy : ∀ (least : Nat) (most : Option Nat),
      (.repetition least most, skipLazy t) = (token, r) → ∀ u,
        Reads u (fun v => some (Token.repetition least most, skipLazy v)) t token r := by
    rintro least most ⟨⟩ u
    exact (skips_skipLazy u t).reads _
  have hdone : ∀ a, (a, t) = (token, r) → ∀ u, Reads u (fun v => some (a, v)) t token r := by
    rintro a ⟨⟩ u
    exact ⟨List.suffix_rfl, fun hv _ => ⟨_, rfl, hv⟩⟩
  have hwhole := h
  rw [readToken.eq_def] at h
  split at h <;> rename_i heq <;> cases heq
  case h_2 =>
    refine hgoes (fun v => readGroupStart (skipIgnored verbose v)) (fun u => ?_) fun v => rfl
    exact (reads_readGroupStart u h).skip (skips_skipIgnored u verbose t) id
  case h_5 =>
    obtain ⟨⟨k, x⟩, hk, heq⟩ := Option.map_eq_some_iff.mp h
    cases heq
    refine hgoes (fun v => (readBrackets verbose v).map fun x =>
      (.characters x.1.chars x.1.height, x.2)) (fun u => ?_) fun v => rfl
    exact (reads_readBrackets u hk).map fun hv => by rw [hv]; rfl
  case h_6 | h_7 | h_8 => exact hgoes _ (hlazy _ _ (Option.some.inj h)) fun v => rfl
  case h_9 => exact hgoes _ (fun u => (reads_readCounts u h).2) fun v => rfl
  case h_13 =>
    rw [readToken_escape, Option.map_eq_some_iff] at hwhole
    obtain ⟨⟨e, x⟩, he, heq⟩ := hwhole
    cases heq
    obtain ⟨hsuffix, hread⟩ := reads_readEscape he
    refine ⟨hsuffix, fun u hforeseen => (hread u fun he => ?_).cons fun hv => ?_⟩
    · exact hforeseen (by rw [he]; rfl)
    · rw [readToken_escape, hv, Option.map_some]
  case h_14 =>
    refine hgoes _ (hdone _ (Option.some.inj h)) fun v => ?_
    rw [readToken] <;> assumption
  all_goals exact hgoes _ (hdone _ (Option.some.inj h)) fun v => rfl

/-- A group is closed by a parenthesis only. -/
theorem eq_of_readToken_closeGroup (h : readToken verbose t = some (.closeGroup, r)) :
    t = ')' :: r := by
  rw [readToken.eq_def] at h
  split at h
  case h_2 => exact absurd rfl (ne_closeGroup_of_readGroupStart h)
  case h_3 =>
    cases h
    rfl
  case h_5 =>
    obtain ⟨_, -, heq⟩ := Option.map_eq_some_iff.mp h
    cases heq
  case h_9 => exact absurd rfl (ne_closeGroup_of_readCounts h)
  case h_13 => split at h <;> cases h
  all_goals cases h

end Tokens

end Regex

end ContentNegotiation
