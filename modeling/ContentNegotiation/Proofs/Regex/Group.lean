import ContentNegotiation.Proofs.Regex.Cuts
import ContentNegotiation.Proofs.Regex.Syntax
import ContentNegotiation.Regex.Parser

/-!
# What is written into a group

A group ends at the first parenthesis that no group in it takes.  If a source that is written into a
group is an expression by itself, or has no closing parenthesis at all, that is the parenthesis
behind the source, and reading the source by itself comes to the same.

* `Group.run` — the assembling of tokens up to a place where groups may be open.
* `IsContent` — the tokens of a source, and the group that they make.

Principal results: `exists_close` (the tokens of a closed group), `exists_content` (what is written
into a group is closed behind it) and `read_of_read_group`.
-/

namespace ContentNegotiation

namespace Regex

/-! ## Assembling -/

namespace Group

/-- Takes in tokens one after the other. -/
def run : List Token → Group → List Group → Option (Group × List Group)
  | [], g, outer => some (g, outer)
  | token :: ts, g, outer => (g.take outer token).bind fun (g, outer) => run ts g outer

/-- A token that closes no group of the base leaves the base alone. -/
theorem take_append {token : Token} {g : Group} {outer : List Group}
    (h : token ≠ .closeGroup ∨ outer ≠ []) (base : List Group) :
    g.take (outer ++ base) token =
      (g.take outer token).map fun (g, outer) => (g, outer ++ base) := by
  cases token with
  | closeGroup =>
      cases outer with
      | nil => simp at h
      | cons o outer => rfl
  | repetition least most =>
      rw [take, take]
      split <;> rfl
  | openGroup _ _ | bar | flags _ | characters _ _ | dot | caret | dollar | assertion _ => rfl

theorem take_append_of_eq_some {token : Token} {g g' : Group} {outer outer' : List Group}
    (h : g.take outer token = some (g', outer')) (base : List Group) :
    g.take (outer ++ base) token = some (g', outer' ++ base) := by
  have hopen : token ≠ .closeGroup ∨ outer ≠ [] := by
    rw [← not_and_or]
    rintro ⟨rfl, rfl⟩
    cases h
  rw [take_append hopen, h]
  rfl

theorem run_append {ts : List Token} {g g' : Group} {outer outer' : List Group}
    (h : g.run ts outer = some (g', outer')) (base : List Group) :
    g.run ts (outer ++ base) = some (g', outer' ++ base) := by
  induction ts generalizing g outer with
  | nil =>
      cases h
      rfl
  | cons token ts ih =>
      rw [run, Option.bind_eq_some_iff] at h
      obtain ⟨⟨g, outer⟩, htake, hrun⟩ := h
      rw [run, take_append_of_eq_some htake, Option.bind_some]
      exact ih hrun

end Group

section Assemble

variable {ts ts' : List Token} {g g' : Group} {outer outer' : List Group}

theorem assemble_cons {token : Token} : assemble (token :: ts) g outer =
    (g.take outer token).bind fun (g, outer) => assemble ts g outer := by
  rw [assemble]
  cases g.take outer token <;> rfl

theorem assemble_append (h : g.run ts outer = some (g', outer')) (ts' : List Token) :
    assemble (ts ++ ts') g outer = assemble ts' g' outer' := by
  induction ts generalizing g outer with
  | nil =>
      cases h
      rfl
  | cons token ts ih =>
      rw [Group.run, Option.bind_eq_some_iff] at h
      obtain ⟨⟨g, outer⟩, htake, hrun⟩ := h
      rw [List.cons_append, assemble_cons, htake, Option.bind_some]
      exact ih hrun

theorem modeAfter_append {token : Token} {verbose : Bool} {o : List Bool}
    (h : token ≠ .closeGroup ∨ o ≠ []) (base : List Bool) :
    modeAfter verbose (o ++ base) token =
      ((modeAfter verbose o token).1, (modeAfter verbose o token).2 ++ base) := by
  cases token <;> try rfl
  cases o with
  | nil => simp at h
  | cons m o => rfl

/-- The modes to return to are as many as the groups that are open. -/
theorem length_modeAfter {token : Token} {verbose : Bool} {o : List Bool}
    (htake : g.take outer token = some (g', outer')) (h : o.length = outer.length) :
    (modeAfter verbose o token).2.length = outer'.length := by
  cases token with
  | openGroup name s =>
      cases htake
      simp [modeAfter, h]
  | closeGroup =>
      cases outer with
      | nil => cases htake
      | cons root outer =>
          cases htake
          simp [modeAfter, h]
  | repetition least most =>
      rw [Group.take] at htake
      split at htake
      · cases htake
        exact h
      · cases htake
  | bar | flags _ | characters _ _ | dot | caret | dollar | assertion _ =>
      cases htake
      exact h

end Assemble

/-- **A group that is closed is closed by the first parenthesis that no group in it takes.**  The
tokens up to there are cut off and taken in as if nothing was around them. -/
theorem exists_close {verbose mode : Bool} (o : List Bool) {base : List Bool} {t : Text}
    {ts : List Token} {q : Place} {g root : Group} (outer : List Group) {gs : List Group} {i : Item}
    (hcuts : Cuts ⟨verbose, o ++ mode :: base, t⟩ ts q) (hlength : o.length = outer.length)
    (hassemble : assemble ts g (outer ++ root :: gs) = some i) :
    ∃ inner behind p u last, ts = inner ++ .closeGroup :: behind ∧
      Cuts ⟨verbose, o, t⟩ inner p ∧ p.next = ')' :: u ∧
      Cuts ⟨verbose, o ++ mode :: base, t⟩ inner { p with outer := mode :: base } ∧
      g.run inner outer = some (last, []) ∧ Cuts ⟨mode, base, u⟩ behind q ∧
      assemble behind (root.add last.close) gs = some i := by
  -- above the base, as many modes are to be returned to as groups are open
  induction ts generalizing verbose o t g outer with
  | nil =>
      rw [assemble.eq_def] at hassemble
      cases outer <;> cases hassemble
  | cons token ts ih =>
      cases hcuts with
      | @cons _ _ _ r _ htoken hcuts =>
          by_cases hclose : token = .closeGroup ∧ outer = []
          · obtain ⟨rfl, rfl⟩ := hclose
            obtain rfl := List.length_eq_zero_iff.mp hlength
            exact ⟨[], ts, ⟨verbose, [], t⟩, r, g, rfl, .nil,
              eq_of_readToken_closeGroup htoken, .nil, rfl, hcuts, hassemble⟩
          · have hopen : token ≠ .closeGroup ∨ outer ≠ [] := not_and_or.mp hclose
            have hopen' : token ≠ .closeGroup ∨ o ≠ [] := by
              refine hopen.imp_right fun h ho => h (List.length_eq_zero_iff.mp ?_)
              rw [← hlength, ho]
              rfl
            rw [assemble_cons, Group.take_append hopen, Option.bind_eq_some_iff] at hassemble
            obtain ⟨⟨g', outer'⟩, htake, hassemble⟩ := hassemble
            obtain ⟨⟨g'', outer''⟩, htake', heq⟩ := Option.map_eq_some_iff.mp htake
            cases heq
            rw [Place.after, modeAfter_append hopen'] at hcuts
            obtain ⟨inner, behind, p, u, last, rfl, hinner, hnext, hwithin, hrun, hbehind,
              hitem⟩ := ih _ _ hcuts (length_modeAfter htake' hlength) hassemble
            refine ⟨token :: inner, behind, p, u, last, rfl, .cons htoken hinner, hnext,
              .cons htoken ?_, ?_, hbehind, hitem⟩
            · rw [Place.after, modeAfter_append hopen']
              exact hwithin
            · rw [Group.run, htake']
              exact hrun

/-! ## What is written into a group -/

/-- The tokens of a source, and the group that they make. -/
structure IsContent (source : Text) (inner : List Token) (last : Group) : Prop where
  tokens : tokens source = some inner
  run : (Group.start .plain).run inner [] = some (last, [])

section Content

variable {source : Text} {r w : Regex} {inner : List Token} {last : Group}

theorem read_eq_some_iff : read source = some r ↔ ∃ ts i, tokens source = some ts ∧
    (groupNames ts).Nodup ∧ assemble ts (.start .plain) [] = some i ∧
      i.height ≤ heightLimit ∧ i.meaning = r := by
  rw [read, Option.bind_eq_some_iff]
  constructor
  · rintro ⟨ts, hts, h⟩
    rw [ofTokens, Option.ite_none_right_eq_some] at h
    obtain ⟨hnodup, h⟩ := h
    split at h
    · rename_i i hi
      rw [Option.ite_none_right_eq_some, Option.some.injEq] at h
      exact ⟨ts, i, hts, hnodup, hi, h.1, h.2⟩
    · cases h
  · rintro ⟨ts, i, hts, hnodup, hi, hheight, rfl⟩
    exact ⟨ts, hts, by simp only [ofTokens, if_pos hnodup, hi, if_pos hheight]⟩

/-- The parenthesis that closes the group stands behind the source or in it. -/
theorem closing_cases {s u : Text} (hs : ')' ∉ s) (h : ')' :: u <:+ source ++ ')' :: s) :
    u = s ∨ ∃ before behind, source = before ++ ')' :: behind ∧ u = behind ++ ')' :: s := by
  obtain ⟨before, hbefore⟩ := h
  rcases List.append_eq_append_iff.mp hbefore with ⟨x, hsource, hrest⟩ | ⟨x, hbefore, hrest⟩
  · cases x with
    | nil => exact Or.inl (List.cons.inj hrest).2
    | cons c x =>
        obtain ⟨rfl, rfl⟩ := List.cons.inj hrest
        exact Or.inr ⟨before, x, hsource, rfl⟩
  · cases x with
    | nil => exact Or.inl (List.cons.inj hrest).2.symm
    | cons c x =>
        obtain ⟨-, rfl⟩ := List.cons.inj hrest
        simp at hs

/-- The tokens before a parenthesis that is left are those of the text before it. -/
theorem tokens_of_close {before u : Text} {p : Place}
    (hinner : Cuts ⟨false, [], before ++ ')' :: u⟩ inner p) (hnext : p.next = ')' :: u) :
    tokens before = some inner := by
  have halike : Alike u [] (before ++ ')' :: u) before := by
    simpa using Alike.append (u := u) (s := []) (by simp) before
  obtain ⟨w, hcuts, hw⟩ := hinner.alike hnext halike
  exact tokens_eq_some_iff.mpr ⟨_, hcuts, hw⟩

/-- Within a group the same tokens are cut off. -/
theorem tokens_group {u : Text} {p : Place}
    (hinner : Cuts ⟨false, [false], source ++ ')' :: u⟩ inner { p with outer := [false] })
    (hnext : p.next = ')' :: u) :
    tokens (RegexEngine.group source) =
      some (.openGroup none [] :: (inner ++ [.closeGroup])) := by
  have halike : Alike u [')'] (source ++ ')' :: u) (source ++ [')']) := .append (by simp) source
  obtain ⟨w, hcuts, hw⟩ := hinner.alike hnext halike
  have hclose : Cuts ⟨p.verbose, [false], w⟩ [.closeGroup] ⟨false, [], []⟩ := by
    refine .cons ?_ .nil
    rw [Place.next, hw]
    rfl
  exact tokens_eq_some_iff.mpr ⟨⟨false, [], []⟩, .cons rfl (hcuts.trans hclose), rfl⟩

/-- A parenthesis that closes no group breaks the grammar. -/
theorem read_eq_none_of_close {before behind u : Text} {p : Place}
    (hinner : Cuts ⟨false, [], before ++ ')' :: u⟩ inner p) (hnext : p.next = ')' :: u)
    (hrun : (Group.start .plain).run inner [] = some (last, [])) :
    read (before ++ ')' :: behind) = none := by
  rw [Option.eq_none_iff_forall_ne_some]
  intro r hr
  obtain ⟨ts, i, hts, -, hassemble, -⟩ := read_eq_some_iff.mp hr
  obtain ⟨q, hcuts, hq⟩ := tokens_eq_some_iff.mp hts
  have halike : Alike u (')' :: behind) (before ++ ')' :: u) (before ++ ')' :: behind) :=
    .append (by simp) before
  obtain ⟨x, hcuts', hx⟩ := hinner.alike hnext halike
  obtain ⟨rest, rfl, hrest⟩ := hcuts'.exists_append hcuts hq
  rw [assemble_append hrun] at hassemble
  -- there is no group that the parenthesis could close
  cases hrest with
  | nil =>
      rw [Place.next, hx] at hq
      cases hq
  | cons htoken _ =>
      rw [Place.next, hx] at htoken
      cases htoken
      cases hassemble

/-- **What is written into a group is closed by the parenthesis behind it**, if it is an expression
by itself or has no closing parenthesis at all. -/
theorem exists_content (hsource : (read source).isSome ∨ ')' ∉ source) {s : Text} (hs : ')' ∉ s)
    {ts : List Token} {q : Place} {root : Group} {i : Item}
    (hcuts : Cuts ⟨false, [false], source ++ ')' :: s⟩ ts q)
    (hi : assemble ts (.start .plain) [root] = some i) :
    ∃ inner behind last, ts = inner ++ .closeGroup :: behind ∧ IsContent source inner last ∧
      tokens (RegexEngine.group source) = some (.openGroup none [] :: (inner ++ [.closeGroup])) ∧
      Cuts ⟨false, [], s⟩ behind q ∧ assemble behind (root.add last.close) [] = some i := by
  obtain ⟨inner, behind, p, u, last, rfl, hinner, hnext, hwithin, hrun, hbehind, hitem⟩ :=
    exists_close [] [] hcuts rfl hi
  have hsuffix : ')' :: u <:+ source ++ ')' :: s :=
    hnext ▸ (Cuts.next_suffix p).trans hinner.suffix
  rcases closing_cases hs hsuffix with rfl | ⟨before, after, rfl, rfl⟩
  · exact ⟨inner, behind, last, rfl, ⟨tokens_of_close hinner hnext, hrun⟩,
      tokens_group hwithin hnext, hbehind, hitem⟩
  · exfalso
    have hinner : Cuts ⟨false, [], before ++ ')' :: (after ++ ')' :: s)⟩ inner p := by
      simpa using hinner
    rcases hsource with hread | hclose
    · rw [read_eq_none_of_close hinner hnext hrun] at hread
      cases hread
    · exact hclose (by simp)

theorem IsContent.read (h : IsContent source inner last) (hnames : (groupNames inner).Nodup)
    (hheight : last.content.height ≤ heightLimit) : read source = some last.content.meaning := by
  have hcontent := assemble_append h.run []
  rw [List.append_nil] at hcontent
  exact read_eq_some_iff.mpr ⟨inner, _, h.tokens, hnames, hcontent, hheight, rfl⟩

theorem IsContent.read_group (h : IsContent source inner last)
    (htokens : Regex.tokens (RegexEngine.group source) =
      some (.openGroup none [] :: (inner ++ [.closeGroup])))
    (hnames : (groupNames inner).Nodup) (hheight : last.content.height + 1 ≤ heightLimit) :
    Regex.read (RegexEngine.group source) = some last.content.meaning := by
  have hassemble : assemble (.openGroup none [] :: (inner ++ [.closeGroup])) (.start .plain) [] =
      some ((Group.start .plain).add last.close).content := by
    rw [assemble_cons]
    exact assemble_append (Group.run_append h.run [.start .plain]) [.closeGroup]
  refine read_eq_some_iff.mpr ⟨_, _, htokens, ?_, hassemble, hheight, rfl⟩
  simpa [groupNames] using hnames

/-- A group is read as what is written into it. -/
theorem read_of_read_group (hsource : (read source).isSome ∨ ')' ∉ source)
    (h : read (RegexEngine.group source) = some w) : read source = some w := by
  obtain ⟨all, i, hall, hnames, hi, hheight, rfl⟩ := read_eq_some_iff.mp h
  obtain ⟨q, hcuts, hq⟩ := tokens_eq_some_iff.mp hall
  have hopen : Cuts ⟨false, [], RegexEngine.group source⟩ [.openGroup none []]
      ⟨false, [false], source ++ [')']⟩ := .cons rfl .nil
  obtain ⟨ts, rfl, hrest⟩ := hopen.exists_append hcuts hq
  obtain ⟨inner, behind, last, rfl, hcontent, -, hbehind, hitem⟩ :=
    exists_content hsource (by simp) hrest hi
  obtain rfl := hbehind.of_end rfl
  cases hitem
  refine hcontent.read ?_ (Nat.le_of_succ_le hheight)
  simpa [groupNames] using hnames

end Content

end Regex

end ContentNegotiation
