import ContentNegotiation.Proofs.Regex.Member

/-!
# A class is read without regard to what stands behind it

A class is read round by round: each round takes a member, an operator or a bracket and goes on with
the classes that are then open.  The bound on the number of rounds does not matter as long as it is
the length of the text.

* `classRound` — one round, with what goes on after it.

Principal results: `reads_classRound` (one round), `readClass_of_le` (the bound), `reads_readClass`
(all rounds) and `reads_readBrackets` (a class from its opening bracket on).
-/

namespace ContentNegotiation

namespace Regex

/-- One round of the reading of a class, which goes on with `next`. -/
def classRound (verbose : Bool)
    (next : Bracket → List Bracket → Text → Option (NestedClass × Text)) (b : Bracket)
    (outer : List Bracket) : Text → Option (NestedClass × Text)
  | [] => none
  | ']' :: t =>
    match outer with
    | [] => some (b.close, t)
    | o :: outer => next (o.add b.close) outer t
  | '[' :: t =>
    match readAsciiClass t with
    | some (k, t) => next (b.add (.leaf k)) outer t
    | none => next (openBracket verbose t).1 (b :: outer) (openBracket verbose t).2
  | '&' :: '&' :: t => next (b.operator .intersection) outer t
  | '-' :: '-' :: t => next (b.operator .difference) outer t
  | '~' :: '~' :: t => next (b.operator .symmetricDifference) outer t
  | t =>
    match readMember verbose t with
    | some (k, t) => next (b.add (.leaf k)) outer t
    | none => none

section Rounds

variable {verbose : Bool} {u t r : Text} {b : Bracket} {outer : List Bracket} {k : NestedClass}
  {n m : Nat} {next next' : Bracket → List Bracket → Text → Option (NestedClass × Text)}

theorem readClass_succ : readClass verbose (n + 1) b outer t =
    classRound verbose (readClass verbose n) b outer (skipIgnored verbose t) := rfl

theorem classRound_of_readMember {x : Text} {first : CharClass} (hclose : ∀ w, t ≠ ']' :: w)
    (hopen : ∀ w, t ≠ '[' :: w) (hand : ∀ w, t ≠ '&' :: '&' :: w)
    (hminus : ∀ w, t ≠ '-' :: '-' :: w) (htilde : ∀ w, t ≠ '~' :: '~' :: w)
    (h : readMember verbose t = some (first, x)) :
    classRound verbose next b outer t = next (b.add (.leaf first)) outer x := by
  have hnil : t ≠ [] := by
    rintro rfl
    cases h
  rw [classRound, h] <;> assumption

/-- **A round does not look behind the parenthesis if the rounds after it do not**, since the rest
of a class that begins with a hyphen reaches behind what the hyphen stands before. -/
theorem reads_classRound (h : classRound verbose next b outer t = some (k, r))
    (hnext : ∀ {b outer x}, x.length < t.length → next b outer x = some (k, r) →
      Reads u (next' b outer) x k r)
    (hhyphen : ∀ {b outer x}, next b outer ('-' :: x) = some (k, r) →
      r.length < (skipIgnored verbose x).length) :
    Reads u (classRound verbose next' b outer) t k r := by
  fun_cases classRound verbose next b outer t with
  | case1 => cases h
  | case2 t =>
      cases h
      exact Reads.char (fun v => rfl) _
  | case3 t o outer => exact (hnext (Nat.lt_succ_self _) h).cons id
  | case4 _ t first x hname =>
      simp only [classRound, hname] at h
      have hclass := reads_readAsciiClass u hname
      have hnext := hnext (Nat.lt_succ_of_le hclass.suffix.length_le) h
      have hread : Reads u (fun v => classRound verbose next' b outer ('[' :: v)) t k r := by
        refine hclass.trans hnext fun hv hw => ?_
        simp only [classRound, hv]
        exact hw
      exact hread.cons id
  | case5 _ t hname =>
      simp only [classRound, hname] at h
      have hopen := reads_openBracket u verbose t
      have hnext := hnext (Nat.lt_succ_of_le hopen.suffix.length_le) h
      have hread : Reads u (fun v => classRound verbose next' b outer ('[' :: v)) t k r := by
        refine hopen.trans_alike hnext fun hv hw hx => ?_
        rw [Option.some.injEq] at hw
        simp only [classRound, hv.readAsciiClass_eq_none hname, hw]
        exact hx
      exact hread.cons id
  | case6 _ t => exact (hnext (Nat.lt_succ_of_lt (Nat.lt_succ_self _)) h).cons_cons id
  | case7 _ t => exact (hnext (Nat.lt_succ_of_lt (Nat.lt_succ_self _)) h).cons_cons id
  | case8 _ t => exact (hnext (Nat.lt_succ_of_lt (Nat.lt_succ_self _)) h).cons_cons id
  | case9 _ _ hnil hclose hopen hand hminus htilde first x hmember =>
      rw [classRound_of_readMember hclose hopen hand hminus htilde hmember] at h
      have hnext := hnext (length_lt_of_readMember hmember) h
      obtain ⟨hsuffix, hread⟩ := reads_readMember hmember
      refine Reads.of_lt (hnext.suffix.trans hsuffix) fun hr => ?_
      -- a hyphen behind the member was looked into, so it has to be well before the parenthesis
      have hread := hread u fun w hw => by
        subst hw
        exact Nat.lt_of_le_of_lt hr (hhyphen h)
      refine hread.trans_alike hnext fun {s v w y} hv hw hy => ?_
      rw [classRound_of_readMember (hv.ne_cons (by decide) hclose) (hv.ne_cons (by decide) hopen)
        (hv.ne_cons_cons (by decide) (by decide) hand)
        (hv.ne_cons_cons (by decide) (by decide) hminus)
        (hv.ne_cons_cons (by decide) (by decide) htilde) hw]
      exact hy
  | case10 _ _ hnil hclose hopen hand hminus htilde hmember =>
      rw [classRound, hmember] at h
      · cases h
      all_goals assumption

/-- A round comes to an end, or it goes on with a shorter text. -/
theorem classRound_cases (verbose : Bool) (b : Bracket) (outer : List Bracket) (t : Text) :
    (∃ y, (∀ k r, y = some (k, r) → r.length < t.length) ∧
      ∀ next, classRound verbose next b outer t = y) ∨
    ∃ b' outer' x, x.length < t.length ∧
      ∀ next, classRound verbose next b outer t = next b' outer' x := by
  fun_cases classRound verbose (fun _ _ _ => none) b outer t with
  | case1 => exact Or.inl ⟨none, nofun, fun next => rfl⟩
  | case2 t =>
      refine Or.inl ⟨some (b.close, t), ?_, fun next => rfl⟩
      rintro k r ⟨⟩
      exact Nat.lt_succ_self _
  | case3 t o outer => exact Or.inr ⟨_, _, t, Nat.lt_succ_self _, fun next => rfl⟩
  | case4 _ t first x hname =>
      have hle := (reads_readAsciiClass [] hname).suffix.length_le
      refine Or.inr ⟨b.add (.leaf first), outer, x, Nat.lt_succ_of_le hle, fun next => ?_⟩
      simp only [classRound, hname]
  | case5 _ t hname =>
      have hle := (reads_openBracket [] verbose t).suffix.length_le
      refine Or.inr ⟨(openBracket verbose t).1, b :: outer, (openBracket verbose t).2,
        Nat.lt_succ_of_le hle, fun next => ?_⟩
      simp only [classRound, hname]
  | case6 _ t =>
      exact Or.inr ⟨_, _, t, Nat.lt_succ_of_lt (Nat.lt_succ_self _), fun next => rfl⟩
  | case7 _ t =>
      exact Or.inr ⟨_, _, t, Nat.lt_succ_of_lt (Nat.lt_succ_self _), fun next => rfl⟩
  | case8 _ t =>
      exact Or.inr ⟨_, _, t, Nat.lt_succ_of_lt (Nat.lt_succ_self _), fun next => rfl⟩
  | case9 _ _ hnil hclose hopen hand hminus htilde first x hmember =>
      exact Or.inr ⟨_, _, x, length_lt_of_readMember hmember, fun next =>
        classRound_of_readMember hclose hopen hand hminus htilde hmember⟩
  | case10 _ _ hnil hclose hopen hand hminus htilde hmember =>
      refine Or.inl ⟨none, nofun, fun next => ?_⟩
      rw [classRound, hmember] <;> assumption

theorem length_lt_of_readClass (h : readClass verbose n b outer t = some (k, r)) :
    r.length < t.length := by
  induction n generalizing b outer t with
  | zero => cases h
  | succ n ih =>
      have hskip := (skips_skipIgnored [] verbose t).suffix.length_le
      rw [readClass_succ] at h
      rcases classRound_cases verbose b outer (skipIgnored verbose t) with
        ⟨y, hy, hround⟩ | ⟨b', outer', x, hx, hround⟩
      · rw [hround] at h
        exact Nat.lt_of_lt_of_le (hy k r h) hskip
      · rw [hround] at h
        have hlt := ih h
        omega

/-- A bound that is long enough changes nothing. -/
theorem readClass_of_le {y : NestedClass × Text} (h : readClass verbose n b outer t = some y)
    (hm : t.length ≤ m) : readClass verbose m b outer t = some y := by
  induction n generalizing b outer t m with
  | zero => cases h
  | succ n ih =>
      have hskip := (skips_skipIgnored [] verbose t).suffix.length_le
      have hlt := length_lt_of_readClass (k := y.1) (r := y.2) h
      obtain ⟨m, rfl⟩ := Nat.exists_eq_add_of_le' (Nat.lt_of_lt_of_le (Nat.zero_lt_of_lt hlt) hm)
      rw [readClass_succ] at h ⊢
      rcases classRound_cases verbose b outer (skipIgnored verbose t) with
        ⟨z, -, hround⟩ | ⟨b', outer', x, hx, hround⟩
      · rw [hround] at h ⊢
        exact h
      · rw [hround] at h ⊢
        exact ih h (by omega)

theorem length_lt_of_readClass_hyphen {x : Text}
    (h : readClass verbose n b outer ('-' :: x) = some (k, r)) :
    r.length < (skipIgnored verbose x).length := by
  cases n with
  | zero => cases h
  | succ n =>
      have hself := skipIgnored_eq_self verbose (c := '-') (by decide) (by decide)
      rw [readClass_succ, hself] at h
      by_cases hx : ∃ w, x = '-' :: w
      · obtain ⟨w, rfl⟩ := hx
        rw [hself]
        exact Nat.lt_succ_of_lt (length_lt_of_readClass h)
      · rw [not_exists] at hx
        cases hmember : readMember verbose ('-' :: x) with
        | none =>
            rw [classRound, hmember] at h
            · cases h
            all_goals simp_all
        | some y =>
            obtain ⟨first, y⟩ := y
            rw [classRound_of_readMember (by simp) (by simp) (by simp) (by simpa using hx)
              (by simp) hmember] at h
            have hlt := length_lt_of_readClass h
            have hle := (suffix_of_readMember_hyphen hmember).length_le
            omega

theorem readClass_of_round {y : NestedClass × Text}
    (h : classRound verbose (fun b outer x => readClass verbose x.length b outer x) b outer
      (skipIgnored verbose t) = some y) :
    readClass verbose t.length b outer t = some y := by
  have hskip := (skips_skipIgnored [] verbose t).suffix.length_le
  rcases classRound_cases verbose b outer (skipIgnored verbose t) with
    ⟨z, hz, hround⟩ | ⟨b', outer', x, hx, hround⟩
  · rw [hround] at h
    have hlt := hz y.1 y.2 h
    obtain ⟨m, hm⟩ := Nat.exists_eq_add_of_le' (Nat.lt_of_le_of_lt (Nat.zero_le _)
      (Nat.lt_of_lt_of_le hlt hskip))
    rw [hm, readClass_succ, hround, h]
  · rw [hround] at h
    obtain ⟨m, hm⟩ := Nat.exists_eq_add_of_le' (Nat.lt_of_le_of_lt (Nat.zero_le _)
      (Nat.lt_of_lt_of_le hx hskip))
    rw [hm, readClass_succ, hround]
    exact readClass_of_le h (by omega)

theorem reads_readClass (u : Text) (h : readClass verbose n b outer t = some (k, r)) :
    Reads u (fun t => readClass verbose t.length b outer t) t k r := by
  induction n generalizing b outer t with
  | zero => cases h
  | succ n ih =>
      have hround : Reads u
          (classRound verbose (fun b outer x => readClass verbose x.length b outer x) b outer)
          (skipIgnored verbose t) k r :=
        reads_classRound h (fun _ h => ih h) length_lt_of_readClass_hyphen
      exact hround.skip (skips_skipIgnored u verbose t) readClass_of_round

theorem reads_readBrackets (u : Text) (h : readBrackets verbose t = some (k, r)) :
    Reads u (readBrackets verbose) t k r := by
  refine (reads_openBracket u verbose t).trans (reads_readClass u h) fun {v w x} hv hw => ?_
  rw [Option.some.injEq] at hv
  have hle := (reads_openBracket u verbose v).suffix.length_le
  rw [hv] at hle
  rw [readBrackets, hv]
  exact readClass_of_le hw hle

end Rounds

end Regex

end ContentNegotiation
