import ContentNegotiation.Proofs.Regex.Escape

/-!
# The members of a class are read without regard to what stands behind them

* `readAsciiName` — what is read of a named class behind the colon and the caret.
* `readCaret`, `readFirstMembers` — what is read of a class behind its opening bracket, and behind
  the caret.
* `readMemberEnd` — what is read of a member behind its first character.

Principal results: `exists_of_readAsciiClass` (a named class is read off what spells it),
`reads_openBracket` (the opening of a class, with the hyphens or the bracket that come first) and
`reads_readMember` (a character, an escape or a range).
-/

namespace ContentNegotiation

namespace Regex

section Members

variable {verbose : Bool} {u t r : Text} {k : CharClass} {b : Bracket} {n m : Nat}

theorem not_mem_of_lookup_asciiClasses {name : Text} (h : asciiClasses.lookup name = some k) :
    ')' ∉ name := by
  have hall : ∀ e ∈ asciiClasses, ')' ∉ e.1 := by decide
  obtain ⟨before, after, hmem, -⟩ := List.lookup_eq_some_iff.mp h
  exact hall (name, k) (hmem ▸ List.mem_append_right before List.mem_cons_self)

theorem span_name {name : Text} (hname : ∀ c ∈ name, c ≠ ':') (v : Text) :
    (name ++ ':' :: ']' :: v).span (· != ':') = (name, ':' :: ']' :: v) := by
  have hall : ∀ c ∈ name, (c != ':') = true := by simpa using hname
  rw [List.span_eq_takeWhile_dropWhile, List.takeWhile_append_of_pos hall,
    List.dropWhile_append_of_pos hall]
  simp

/-- What is read of a named class behind the colon and the caret. -/
def readAsciiName (negated : Bool) (t : Text) : Option (CharClass × Text) :=
  let (name, rest) := t.span (· != ':')
  match rest with
  | ':' :: ']' :: rest =>
    (asciiClasses.lookup name).map fun k => (if negated then .complement k else k, rest)
  | _ => none

theorem exists_of_readAsciiName {negated : Bool} (h : readAsciiName negated t = some (k, r)) :
    ∃ name, t = name ++ ':' :: ']' :: r ∧ ')' ∉ name ∧
      ∀ v, readAsciiName negated (name ++ ':' :: ']' :: v) = some (k, v) := by
  obtain ⟨name, rest, hspan⟩ : ∃ name rest, t.span (· != ':') = (name, rest) := ⟨_, _, rfl⟩
  simp only [readAsciiName, hspan] at h
  split at h
  · obtain ⟨plain, hlookup, heq⟩ := Option.map_eq_some_iff.mp h
    cases heq
    rw [List.span_eq_takeWhile_dropWhile, Prod.mk.injEq] at hspan
    obtain ⟨hname, hrest⟩ := hspan
    have hchars : ∀ c ∈ name, c ≠ ':' := by
      intro c hc
      rw [← hname] at hc
      simpa using List.mem_takeWhile_imp hc
    refine ⟨name, ?_, not_mem_of_lookup_asciiClasses hlookup, fun v => ?_⟩
    · rw [← hname, ← hrest, List.takeWhile_append_dropWhile]
    · simp only [readAsciiName, span_name hchars, hlookup, Option.map_some]
  · cases h

theorem readAsciiClass_caret (t : Text) : readAsciiClass (':' :: '^' :: t) = readAsciiName true t :=
  rfl

theorem readAsciiClass_of_ne (ht : ∀ w, t ≠ '^' :: w) :
    readAsciiClass (':' :: t) = readAsciiName false t := by
  simp only [readAsciiClass]
  rfl

/-- A named class is read off what spells it, whatever stands behind it. -/
theorem exists_of_readAsciiClass (h : readAsciiClass t = some (k, r)) :
    ∃ x, t = x ++ r ∧ ')' ∉ x ∧ ∀ v, readAsciiClass (x ++ v) = some (k, v) := by
  cases t with
  | nil => cases h
  | cons c t =>
      by_cases hc : c = ':'
      · subst hc
        by_cases hcaret : ∃ w, t = '^' :: w
        · obtain ⟨w, rfl⟩ := hcaret
          rw [readAsciiClass_caret] at h
          obtain ⟨name, rfl, hname, hread⟩ := exists_of_readAsciiName h
          refine ⟨':' :: '^' :: (name ++ [':', ']']), by simp, by simp [hname], fun v => ?_⟩
          simpa [readAsciiClass_caret] using hread v
        · rw [not_exists] at hcaret
          rw [readAsciiClass_of_ne hcaret] at h
          obtain ⟨name, rfl, hname, hread⟩ := exists_of_readAsciiName h
          refine ⟨':' :: (name ++ [':', ']']), by simp, by simp [hname], fun v => ?_⟩
          have hne : ∀ w, name ++ ':' :: ']' :: v ≠ '^' :: w := by
            intro w hw
            cases name with
            | nil => cases hw
            | cons d name =>
                obtain ⟨rfl, -⟩ := List.cons.inj hw
                exact hcaret _ rfl
          simpa [readAsciiClass_of_ne hne] using hread v
      · rw [readAsciiClass.eq_def] at h
        split at h
        · rename_i heq
          exact absurd (List.cons.inj heq).1 hc
        · cases h

theorem reads_readAsciiClass (u : Text) (h : readAsciiClass t = some (k, r)) :
    Reads u readAsciiClass t k r := by
  obtain ⟨name, rfl, -, hread⟩ := exists_of_readAsciiClass h
  refine ⟨List.suffix_append name r, fun hv hr => ?_⟩
  obtain ⟨w, rfl, hw⟩ := hv.append_left hr
  exact ⟨w, hread w, hw⟩

/-- A named class of the second text would be one of the first text. -/
theorem Alike.readAsciiClass_eq_none {s v : Text} (hv : Alike u s t v)
    (h : readAsciiClass t = none) : readAsciiClass v = none := by
  by_contra hsome
  obtain ⟨⟨plain, x⟩, hx⟩ := Option.ne_none_iff_exists'.mp hsome
  obtain ⟨name, rfl, hparen, hread⟩ := exists_of_readAsciiClass hx
  obtain ⟨w, rfl, -⟩ := hv.append_right hparen
  rw [hread] at h
  cases h

theorem readHyphens_eq_self (ht : ∀ w, t ≠ '-' :: w) : readHyphens verbose n t b = (b, t) := by
  rw [readHyphens.eq_def]
  split
  · exact absurd rfl (ht _)
  · rfl

/-- Leading hyphens are all taken, whatever bound is long enough. -/
theorem readHyphens_eq (hn : t.length ≤ n) (hm : t.length ≤ m) :
    readHyphens verbose n t b = readHyphens verbose m t b := by
  induction n generalizing t b m with
  | zero =>
      obtain rfl := List.length_eq_zero_iff.mp (Nat.le_zero.mp hn)
      cases m <;> rfl
  | succ n ih =>
      cases m with
      | zero =>
          obtain rfl := List.length_eq_zero_iff.mp (Nat.le_zero.mp hm)
          rfl
      | succ m =>
          by_cases ht : ∃ v, t = '-' :: v
          · obtain ⟨v, rfl⟩ := ht
            have hle := (skips_skipIgnored [] verbose v).suffix.length_le
            rw [List.length_cons] at hn hm
            exact ih (by omega) (by omega)
          · rw [not_exists] at ht
            rw [readHyphens_eq_self ht, readHyphens_eq_self ht]

theorem reads_readHyphens (u : Text) (verbose : Bool) (t : Text) (b : Bracket) :
    Reads u (fun t => some (readHyphens verbose t.length t b)) t
      (readHyphens verbose t.length t b).1 (readHyphens verbose t.length t b).2 := by
  induction hlength : t.length using Nat.strong_induction_on generalizing t b with
  | _ n ih =>
      subst hlength
      by_cases ht : ∃ v, t = '-' :: v
      · obtain ⟨v, rfl⟩ := ht
        have hle := fun v => (skips_skipIgnored [] verbose v).suffix.length_le
        have hnext : ∀ v, readHyphens verbose ('-' :: v).length ('-' :: v) b =
            readHyphens verbose (skipIgnored verbose v).length (skipIgnored verbose v)
              (b.add (.leaf (.single '-'))) := fun v => readHyphens_eq (hle v) (Nat.le_refl _)
        rw [hnext]
        have hread := Reads.skip
          (h := fun v => some (readHyphens verbose ('-' :: v).length ('-' :: v) b))
          (skips_skipIgnored u verbose v)
          (ih _ (Nat.lt_succ_of_le (hle v)) (skipIgnored verbose v)
            (b.add (.leaf (.single '-'))) rfl) fun hv => by rw [hnext]; exact hv
        exact hread.cons id
      · rw [not_exists] at ht
        rw [readHyphens_eq_self ht]
        refine ⟨List.suffix_rfl, fun hv _ => ⟨_, ?_, hv⟩⟩
        rw [readHyphens_eq_self (hv.ne_cons (by decide) ht)]

/-- What is read behind the opening bracket and the caret. -/
def readFirstMembers (verbose negated : Bool) (t : Text) : Bracket × Text :=
  let start : Bracket := ⟨negated, none, []⟩
  match t with
  | '-' :: _ => readHyphens verbose t.length t start
  | ']' :: t => (start.add (.leaf (.single ']')), skipIgnored verbose t)
  | t => (start, t)

theorem reads_readFirstMembers (u : Text) (verbose negated : Bool) (t : Text) :
    Reads u (fun t => some (readFirstMembers verbose negated t)) t
      (readFirstMembers verbose negated t).1 (readFirstMembers verbose negated t).2 := by
  by_cases hhyphen : ∃ v, t = '-' :: v
  · obtain ⟨v, rfl⟩ := hhyphen
    refine (reads_readHyphens u verbose ('-' :: v) ⟨negated, none, []⟩).map_alike fun hv hw => ?_
    obtain ⟨v, rfl, -⟩ := hv.tail_of_ne (by decide)
    exact hw
  by_cases hclose : ∃ v, t = ']' :: v
  · obtain ⟨v, rfl⟩ := hclose
    exact ((skips_skipIgnored u verbose v).reads _).cons id
  · rw [not_exists] at hhyphen hclose
    have hself : ∀ v, (∀ w, v ≠ '-' :: w) → (∀ w, v ≠ ']' :: w) →
        readFirstMembers verbose negated v = (⟨negated, none, []⟩, v) := by
      intro v hhyphen hclose
      rw [readFirstMembers] <;> assumption
    rw [hself t hhyphen hclose]
    refine ⟨List.suffix_rfl, fun hv _ => ⟨_, ?_, hv⟩⟩
    rw [hself _ (hv.ne_cons (by decide) hhyphen) (hv.ne_cons (by decide) hclose)]

/-- What is read behind the opening bracket and what is ignored after it. -/
def readCaret (verbose : Bool) : Text → Bracket × Text
  | '^' :: t => readFirstMembers verbose true (skipIgnored verbose t)
  | t => readFirstMembers verbose false t

theorem readCaret_of_ne (h : ∀ v, t ≠ '^' :: v) :
    readCaret verbose t = readFirstMembers verbose false t := by
  rw [readCaret]
  exact h

theorem openBracket_eq (verbose : Bool) (t : Text) :
    openBracket verbose t = readCaret verbose (skipIgnored verbose t) := by
  by_cases hcaret : ∃ v, skipIgnored verbose t = '^' :: v
  · obtain ⟨v, hv⟩ := hcaret
    rw [openBracket, hv]
    rfl
  · rw [not_exists] at hcaret
    rw [readCaret_of_ne hcaret]
    simp only [openBracket]
    rfl

theorem reads_readCaret (u : Text) (verbose : Bool) (t : Text) :
    Reads u (fun t => some (readCaret verbose t)) t (readCaret verbose t).1
      (readCaret verbose t).2 := by
  by_cases hcaret : ∃ v, t = '^' :: v
  · obtain ⟨v, rfl⟩ := hcaret
    have hread : Reads u
        (fun v => some (readFirstMembers verbose true (skipIgnored verbose v))) v _ _ :=
      (reads_readFirstMembers u verbose true (skipIgnored verbose v)).skip
        (skips_skipIgnored u verbose v) id
    exact hread.cons id
  · rw [not_exists] at hcaret
    rw [readCaret_of_ne hcaret]
    refine (reads_readFirstMembers u verbose false t).map_alike fun hv hw => ?_
    rw [readCaret_of_ne (hv.ne_cons (by decide) hcaret), hw]

theorem reads_openBracket (u : Text) (verbose : Bool) (t : Text) :
    Reads u (fun t => some (openBracket verbose t)) t (openBracket verbose t).1
      (openBracket verbose t).2 := by
  rw [openBracket_eq]
  refine (reads_readCaret u verbose _).skip (skips_skipIgnored u verbose t) fun hv => ?_
  rw [openBracket_eq, hv]

theorem reads_readClassItem {e : Escape} (h : readClassItem verbose t = some (e, r)) :
    r <:+ t ∧ ∀ u, e ≠ .assertion .wordBoundary → Reads u (readClassItem verbose) t e r := by
  cases t with
  | nil => cases h
  | cons c t =>
      by_cases hc : c = '\\'
      · subst hc
        obtain ⟨hsuffix, hread⟩ := reads_readEscape h
        exact ⟨hsuffix.trans (List.suffix_cons ..), fun u he =>
          (hread u fun heq => absurd heq he).cons id⟩
      · have hitem : ∀ v, readClassItem verbose (c :: v) = some (.literal c, v) := by
          intro v
          rw [readClassItem]
          exact hc
        rw [hitem] at h
        cases h
        exact ⟨List.suffix_cons .., fun u _ => Reads.char hitem _⟩

/-- What an escape or a character stands for if it is no end of a range. -/
def memberAlone : Escape → Option CharClass
  | .literal c => some (.single c)
  | .characters k => some k
  | .assertion _ => none

/-- What is read behind the first character of a member. -/
def readMemberEnd (verbose : Bool) (first : Escape) (t : Text) : Option (CharClass × Text) :=
  let alone : Option (CharClass × Text) := (memberAlone first).map fun k => (k, t)
  match t with
  | '-' :: x =>
    match skipIgnored verbose x with
    | ']' :: _ => alone
    | '-' :: _ => alone
    | _ => do
      let (second, rest) ← readClassItem verbose (skipIgnored verbose x)
      match first, second with
      | .literal low, .literal high => if low ≤ high then some (.range low high, rest) else none
      | _, _ => none
  | _ => alone

theorem readMember_eq (verbose : Bool) (t : Text) :
    readMember verbose t = (readClassItem verbose t).bind fun (first, t) =>
      readMemberEnd verbose first (skipIgnored verbose t) := by
  rw [readMember, Option.bind_eq_bind]
  congr 1
  funext ⟨first, t⟩
  simp only [readMemberEnd]
  cases first <;> rfl

section MemberEnd

variable {first : Escape}

theorem ne_assertion_of_readMemberEnd (h : readMemberEnd verbose first t = some (k, r))
    (a : Assertion) :
    first ≠ .assertion a := by
  rintro rfl
  simp only [readMemberEnd, memberAlone, Option.map_none] at h
  split at h
  · split at h
    · cases h
    · cases h
    · simp [Option.bind_eq_bind] at h
  · cases h

/-- A hyphen that makes no range. -/
theorem readMemberEnd_of_hyphen {x : Text} {c : Char} (hc : c = ']' ∨ c = '-')
    (hx : (skipIgnored verbose x).head? = some c) :
    readMemberEnd verbose first ('-' :: x) = (memberAlone first).map fun k => (k, '-' :: x) := by
  obtain ⟨y, hy⟩ := List.head?_eq_some_iff.mp hx
  rcases hc with rfl | rfl <;> simp only [readMemberEnd, hy]

theorem readMemberEnd_of_range {x : Text} (hclose : ∀ w, skipIgnored verbose x ≠ ']' :: w)
    (hhyphen : ∀ w, skipIgnored verbose x ≠ '-' :: w) :
    readMemberEnd verbose first ('-' :: x) = (readClassItem verbose (skipIgnored verbose x)).bind
      fun (second, rest) => match first, second with
        | .literal low, .literal high => if low ≤ high then some (.range low high, rest) else none
        | _, _ => none := by
  simp only [readMemberEnd]
  rfl

theorem readMemberEnd_of_ne (h : ∀ x, t ≠ '-' :: x) :
    readMemberEnd verbose first t = (memberAlone first).map fun k => (k, t) := by
  simp only [readMemberEnd]

/-- The end of a range is read behind what is ignored after the hyphen. -/
theorem reads_readMemberEnd_range {x : Text} (u : Text)
    (hclose : ∀ w, skipIgnored verbose x ≠ ']' :: w)
    (hhyphen : ∀ w, skipIgnored verbose x ≠ '-' :: w)
    (h : readMemberEnd verbose first ('-' :: x) = some (k, r)) :
    Reads u (readMemberEnd verbose first) ('-' :: x) k r := by
  rw [readMemberEnd_of_range hclose hhyphen, Option.bind_eq_some_iff] at h
  obtain ⟨⟨second, rest⟩, hsecond, hrange⟩ := h
  simp only at hrange
  split at hrange
  · split_ifs at hrange with hle
    cases hrange
    have hskips := skips_skipIgnored u verbose x
    have hread := (reads_readClassItem hsecond).2 u nofun
    have hend : Reads u (fun v => readClassItem verbose (skipIgnored verbose v)) x _ r :=
      hread.skip hskips id
    refine Reads.of_lt (hend.suffix.trans (List.suffix_cons '-' x)) fun hr => ?_
    refine hend.cons_alike fun hv hw => ?_
    have halike := hskips.alike hv (Nat.lt_of_lt_of_le hr hread.suffix.length_le)
    rw [readMemberEnd_of_range (halike.ne_cons (by decide) hclose)
      (halike.ne_cons (by decide) hhyphen), hw]
    simp only [Option.bind_some, if_pos hle]
  · cases hrange

theorem reads_readMemberEnd (h : readMemberEnd verbose first t = some (k, r)) :
    r <:+ t ∧ ∀ u, Foreseen verbose '-' u r → Reads u (readMemberEnd verbose first) t k r := by
  by_cases ht : ∃ x, t = '-' :: x
  · obtain ⟨x, rfl⟩ := ht
    by_cases hx : ∃ c, (c = ']' ∨ c = '-') ∧ (skipIgnored verbose x).head? = some c
    · obtain ⟨c, hc, hx⟩ := hx
      rw [readMemberEnd_of_hyphen hc hx, Option.map_eq_some_iff] at h
      obtain ⟨k, hk, heq⟩ := h
      cases heq
      refine ⟨List.suffix_rfl, fun u hforeseen => ⟨List.suffix_rfl, fun {s v} hv _ => ?_⟩⟩
      refine ⟨v, ?_, hv⟩
      obtain ⟨y, rfl, hy⟩ := hv.tail_of_ne (by decide)
      obtain ⟨z, hz⟩ := List.head?_eq_some_iff.mp hx
      have halike := (skips_skipIgnored u verbose x).alike hy (Nat.lt_of_succ_lt (hforeseen x rfl))
      rw [hz] at halike
      obtain ⟨w, hw, -⟩ := halike.tail_of_ne (by rcases hc with rfl | rfl <;> decide)
      rw [readMemberEnd_of_hyphen hc (by rw [hw]; rfl), hk, Option.map_some]
    · have hread := fun u => reads_readMemberEnd_range u
        (fun w hw => hx ⟨']', Or.inl rfl, by rw [hw]; rfl⟩)
        (fun w hw => hx ⟨'-', Or.inr rfl, by rw [hw]; rfl⟩) h
      exact ⟨(hread []).suffix, fun u _ => hread u⟩
  · rw [not_exists] at ht
    rw [readMemberEnd_of_ne ht, Option.map_eq_some_iff] at h
    obtain ⟨k, hk, heq⟩ := h
    cases heq
    refine ⟨List.suffix_rfl, fun u _ => ⟨List.suffix_rfl, fun {s v} hv _ => ⟨v, ?_, hv⟩⟩⟩
    rw [readMemberEnd_of_ne (hv.ne_cons (by decide) ht), hk, Option.map_some]

end MemberEnd

theorem reads_readMember (h : readMember verbose t = some (k, r)) :
    r <:+ t ∧ ∀ u, Foreseen verbose '-' u r → Reads u (readMember verbose) t k r := by
  rw [readMember_eq, Option.bind_eq_some_iff] at h
  obtain ⟨⟨first, rest⟩, hfirst, h⟩ := h
  obtain ⟨hsuffix, hread⟩ := reads_readClassItem hfirst
  obtain ⟨hsuffix', hread'⟩ := reads_readMemberEnd h
  have hskips := fun u => skips_skipIgnored u verbose rest
  refine ⟨hsuffix'.trans ((hskips []).suffix.trans hsuffix), fun u hforeseen => ?_⟩
  have hread := hread u (ne_assertion_of_readMemberEnd h _)
  have hend := Reads.skip (h := fun v => readMemberEnd verbose first (skipIgnored verbose v))
    (hskips u) (hread' u hforeseen) id
  refine hread.trans hend fun hv hw => ?_
  rw [readMember_eq, hv]
  exact hw

/-- If it begins with a hyphen, a member reaches behind what is ignored after that. -/
theorem suffix_of_readMember_hyphen {x : Text} (h : readMember verbose ('-' :: x) = some (k, r)) :
    r <:+ skipIgnored verbose x := by
  rw [readMember_eq, Option.bind_eq_some_iff] at h
  obtain ⟨⟨first, rest⟩, hfirst, h⟩ := h
  cases hfirst
  exact (reads_readMemberEnd h).1

theorem length_lt_of_readClassItem {e : Escape} (h : readClassItem verbose t = some (e, r)) :
    r.length < t.length := by
  cases t with
  | nil => cases h
  | cons c t =>
      refine Nat.lt_succ_of_le ?_
      rw [readClassItem.eq_def] at h
      split at h
      · cases h
      · rename_i heq
        cases heq
        exact (reads_readEscape h).1.length_le
      · rename_i heq
        cases heq
        cases h
        exact Nat.le_refl _

theorem length_lt_of_readMember (h : readMember verbose t = some (k, r)) : r.length < t.length := by
  rw [readMember_eq, Option.bind_eq_some_iff] at h
  obtain ⟨⟨first, rest⟩, hfirst, h⟩ := h
  have hskip := (skips_skipIgnored [] verbose rest).suffix
  exact Nat.lt_of_le_of_lt ((reads_readMemberEnd h).1.trans hskip).length_le
    (length_lt_of_readClassItem hfirst)

end Members

end Regex

end ContentNegotiation
