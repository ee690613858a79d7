import ContentNegotiation.Proofs.Agent.RoundTrip
import Mathlib.Logic.Relation

/-!
# The scan loses no token

What the scan of products finds, said without reference to the scan: first the comments of the text
are taken out, then the runs of token characters outside of them are names and versions in their
order.

* `Product.Outlines` — the characters of a text that stand outside of comments, and the comments.
* `Product.runs` — the maximal runs of token characters outside of comments.
* `Product.Laid` — products as they lie in an outline: each is spelled by a run, or by two with a
  slash between them, and the gap up to the next one has its comment.
* `Product.round` — one round of the scan, with the blanks after it.

Principal results: `Product.finds_scan` (the scan finds what lies in the outline) and
`Product.readAll_keeps_runs` (the products of a text have its runs for names and versions).
-/

namespace ContentNegotiation

namespace Product

/-! ## Comments -/

theorem closeComment_staysOpen {depth : Nat} {t : Text} (h : Text.StaysOpen depth t)
    (inner : Text) : closeComment depth inner t = (inner.reverse ++ t, []) := by
  induction t generalizing depth inner with
  | nil => simp [closeComment]
  | cons x t ih =>
      unfold closeComment
      by_cases ho : x = '('
      · subst ho
        rw [if_pos rfl, ih ((Text.staysOpen_cons_iff (by simp)).mp h)]
        simp
      by_cases hc : x = ')'
      · subst hc
        cases depth with
        | zero =>
            have := h [')'] (by simp)
            simp at this
        | succ depth =>
            rw [if_neg ho, if_pos rfl]
            have hnext : Text.StaysOpen depth t := (Text.staysOpen_cons_iff (by simp)).mp h
            simp [ih hnext]
      · rw [if_neg ho, if_neg hc, ih ((Text.staysOpen_cons_iff (by simp [ho, hc])).mp h)]
        simp

/-- What is open before a text is closed in it, or stays open. -/
theorem exists_closes_or_staysOpen (depth : Nat) (t : Text) :
    (∃ c u, t = c ++ ')' :: u ∧ Text.Closes depth c) ∨ Text.StaysOpen depth t := by
  induction t generalizing depth with
  | nil => exact Or.inr (Text.staysOpen_nil depth)
  | cons x t ih =>
      have hstep : ∀ next, next + [x].count ')' = depth + [x].count '(' →
          (∃ c u, x :: t = c ++ ')' :: u ∧ Text.Closes depth c) ∨
            Text.StaysOpen depth (x :: t) := by
        intro next hnext
        rcases ih next with ⟨c, u, rfl, hc⟩ | hopen
        · exact Or.inl ⟨x :: c, u, rfl, (Text.closes_cons_iff hnext).mpr hc⟩
        · exact Or.inr ((Text.staysOpen_cons_iff hnext).mpr hopen)
      by_cases ho : x = '('
      · subst ho
        exact hstep (depth + 1) (by simp)
      by_cases hc : x = ')'
      · subst hc
        cases depth with
        | zero => exact Or.inl ⟨[], t, rfl, Text.closes_nil_iff.mpr rfl⟩
        | succ depth => exact hstep depth (by simp)
      · exact hstep depth (by simp [ho, hc])

/-- While a comment is read, no more parentheses are closed than open. -/
theorem staysOpen_closeComment (t : Text) : Text.StaysOpen 0 (closeComment 0 [] t).1 := by
  rcases exists_closes_or_staysOpen 0 t with ⟨c, u, rfl, hc⟩ | hopen
  · rw [closeComment_balanced hc]
    exact hc.staysOpen
  · rw [closeComment_staysOpen hopen]
    exact hopen

/-! ## The outline of a text -/

/-- What stands in a text: a character outside of comments, or a comment with its inner text. -/
inductive Mark where
  | outside (c : Char)
  | comment (inner : Text)
  deriving DecidableEq, Repr

namespace Mark

/-- A token character outside of comments. -/
def isToken : Mark → Bool
  | outside c => isTokenChar c
  | comment _ => false

/-- The character, if it is no comment. -/
def char? : Mark → Option Char
  | outside c => some c
  | comment _ => none

/-- The trimmed text of a comment, unless it is blank. -/
def content? : Mark → Option Text
  | outside _ => none
  | comment inner => unlessEmpty (some (Text.trim inner))

end Mark

/-- The outline of a text.  A comment begins with a parenthesis outside of comments and ends with
its partner, or with the text if it has none. -/
inductive Outlines : Text → List Mark → Prop where
  | nil : Outlines [] []
  | outside {c : Char} {t : Text} {ms : List Mark} :
      c ≠ '(' → Outlines t ms → Outlines (c :: t) (.outside c :: ms)
  | comment {inner t : Text} {ms : List Mark} :
      inner.Balanced → Outlines t ms → Outlines ('(' :: (inner ++ ')' :: t)) (.comment inner :: ms)
  | unclosed {inner : Text} : inner.StaysOpen 0 → Outlines ('(' :: inner) [.comment inner]

namespace Outlines

variable {c : Char} {n t u : Text} {ms : List Mark}

theorem nil_iff : Outlines [] ms ↔ ms = [] := by
  constructor
  · intro h
    cases h
    rfl
  · rintro rfl
    exact .nil

theorem cons_iff (hc : c ≠ '(') :
    Outlines (c :: t) ms ↔ ∃ rest, ms = .outside c :: rest ∧ Outlines t rest := by
  constructor
  · intro h
    cases h with
    | outside _ h => exact ⟨_, rfl, h⟩
    | comment _ _ => exact absurd rfl hc
    | unclosed _ => exact absurd rfl hc
  · rintro ⟨rest, rfl, h⟩
    exact .outside hc h

/-- The comment that the scan finds is that of the outline. -/
theorem open_iff :
    Outlines ('(' :: t) ms ↔ ∃ rest, ms = .comment (closeComment 0 [] t).1 :: rest ∧
      Outlines (closeComment 0 [] t).2 rest := by
  constructor
  · intro h
    cases h with
    | outside hne _ => exact absurd rfl hne
    | comment hinner h =>
        rw [closeComment_balanced hinner]
        exact ⟨_, rfl, h⟩
    | unclosed hopen =>
        rw [closeComment_staysOpen hopen]
        exact ⟨[], rfl, .nil⟩
  · rintro ⟨rest, rfl, h⟩
    rcases exists_closes_or_staysOpen 0 t with ⟨inner, u, rfl, hinner⟩ | hopen
    · rw [closeComment_balanced hinner] at h ⊢
      exact .comment hinner h
    · rw [closeComment_staysOpen hopen] at h ⊢
      rw [nil_iff.mp h]
      exact .unclosed hopen

theorem append_iff (hn : ∀ c ∈ n, isTokenChar c = true) :
    Outlines (n ++ t) ms ↔ ∃ rest, ms = n.map .outside ++ rest ∧ Outlines t rest := by
  induction n generalizing ms with
  | nil => simp
  | cons c n ih =>
      obtain ⟨hc, hn⟩ := List.forall_mem_cons.mp hn
      rw [List.cons_append, cons_iff (ne_open_of_isTokenChar hc)]
      simp only [ih hn]
      constructor
      · rintro ⟨_, rfl, rest, rfl, h⟩
        exact ⟨rest, rfl, h⟩
      · rintro ⟨rest, rfl, h⟩
        exact ⟨_, rfl, rest, rfl, h⟩

/-- The first mark outside of comments is the first character. -/
theorem head?_eq (h : Outlines t (.outside c :: ms)) : t.head? = some c := by
  cases h
  rfl

/-- With a text that ends a token, no run begins. -/
theorem not_isToken_head (h : Outlines t ms) (ht : t.EndsToken) :
    ∀ m, ms.head? = some m → m.isToken = false := by
  rintro m hm
  obtain ⟨rest, rfl⟩ := List.head?_eq_some_iff.mp hm
  cases m with
  | outside c => exact ht c h.head?_eq
  | comment _ => rfl

end Outlines

/-- **Every text has an outline.** -/
theorem exists_outlines (t : Text) : ∃ ms, Outlines t ms := by
  induction hlength : t.length using Nat.strong_induction_on generalizing t with
  | _ k ih =>
      cases t with
      | nil => exact ⟨[], .nil⟩
      | cons c t =>
          rw [List.length_cons] at hlength
          by_cases hc : c = '('
          · subst hc
            have hle := closeComment_length_le 0 [] t
            obtain ⟨ms, h⟩ := ih _ (by omega) (closeComment 0 [] t).2 rfl
            exact ⟨_, Outlines.open_iff.mpr ⟨ms, rfl, h⟩⟩
          · obtain ⟨ms, h⟩ := ih _ (by omega) t rfl
            exact ⟨_, .outside hc h⟩

/-! ## Runs -/

/-- The maximal runs of token characters outside of comments. -/
def runs (ms : List Mark) : List Text :=
  ((ms.splitOnP (!·.isToken)).filter (!·.isEmpty)).map (·.filterMap Mark.char?)

theorem runs_nil : runs [] = [] := by
  simp [runs, List.splitOnP_nil]

section Runs

variable {n : Text} {m : Mark} {gap ms : List Mark}

theorem runs_cons (hm : m.isToken = false) : runs (m :: ms) = runs ms := by
  have hnot : (!m.isToken) = true := by simp [hm]
  have hsplit := List.splitOnP_append_cons (p := (!Mark.isToken ·)) [] ms hnot
  rw [List.nil_append, List.splitOnP_nil] at hsplit
  simp [runs, hsplit]

theorem runs_append (hgap : ∀ m ∈ gap, m.isToken = false) : runs (gap ++ ms) = runs ms := by
  induction gap with
  | nil => rfl
  | cons m gap ih =>
      obtain ⟨hm, hgap⟩ := List.forall_mem_cons.mp hgap
      rw [List.cons_append, runs_cons hm, ih hgap]

/-- A token that does not go on is a run. -/
theorem runs_token (hn : n.isToken = true) (hms : ∀ m, ms.head? = some m → m.isToken = false) :
    runs (n.map .outside ++ ms) = n :: runs ms := by
  obtain ⟨hne, hchars⟩ := Text.isToken_iff.mp hn
  have hsingle : (n.map Mark.outside).splitOnP (!Mark.isToken ·) = [n.map .outside] := by
    refine List.splitOnP_eq_singleton ?_
    simpa [Mark.isToken] using hchars
  have hread : (n.map Mark.outside).filterMap Mark.char? = n := by
    simp [List.filterMap_map, Function.comp_def, Mark.char?]
  cases ms with
  | nil => simp [runs, hsingle, hread, hne, List.splitOnP_nil]
  | cons m ms =>
      have hm := hms m rfl
      rw [runs_cons hm, runs, List.splitOnP_append_cons _ _ (by simp [hm]), hsingle]
      simp [runs, hread, hne]

end Runs

/-! ## Products in an outline -/

/-- Name and version as they are written. -/
def spelled (p : Product) : List Mark :=
  (print { p with comment := none }).map .outside

/-- The first comment in a gap that is not blank, trimmed. -/
def firstComment (gap : List Mark) : Option Text :=
  gap.findSome? Mark.content?

/-- The products lie in the outline one after the other.  Name and version are tokens, with just a
slash between them.  The gap behind them has no token and reaches up to the next product, and the
first comment in it that is not blank is the comment of the product.  There is a gap before the next
product, since a run is not cut; and it is not just a slash behind a name alone, since what follows
that is the version. -/
inductive Laid : List Product → List Mark → Prop where
  | nil : Laid [] []
  | cons {p : Product} {ps : List Product} {gap ms : List Mark} :
      p.name.isToken = true → (∀ v ∈ p.version, v.isToken = true) →
      (∀ m ∈ gap, m.isToken = false) → p.comment = firstComment gap →
      (ps ≠ [] → gap ≠ [] ∧ (p.version = none → gap ≠ [.outside '/'])) → Laid ps ms →
        Laid (p :: ps) (spelled p ++ (gap ++ ms))

/-- The name and the version, if there is one. -/
def words (p : Product) : List Text :=
  p.name :: p.version.toList

namespace Laid

variable {p : Product} {ps : List Product} {gap ms : List Mark}

/-- A product begins with a token character. -/
theorem isToken_head (h : Laid (p :: ps) ms) : ∃ m, ms.head? = some m ∧ m.isToken = true := by
  cases h with
  | cons hname _ _ _ _ _ =>
      obtain ⟨hne, hchars⟩ := Text.isToken_iff.mp hname
      obtain ⟨c, n, hcons⟩ := List.exists_cons_of_ne_nil hne
      refine ⟨.outside c, by simp [spelled, print, hcons], ?_⟩
      exact hchars c (hcons ▸ List.mem_cons_self)

theorem head_gap (hgap : ∀ m ∈ gap, m.isToken = false) (hparted : ps ≠ [] → gap ≠ [])
    (h : Laid ps ms) : ∀ m, (gap ++ ms).head? = some m → m.isToken = false := by
  intro m hm
  cases gap with
  | cons x gap =>
      obtain rfl : x = m := Option.some.inj hm
      exact hgap x List.mem_cons_self
  | nil =>
      cases h with
      | nil => cases hm
      | cons => exact absurd rfl (hparted (List.cons_ne_nil _ _))

theorem runs_spelled (hname : p.name.isToken = true) (hversion : ∀ v ∈ p.version, v.isToken = true)
    (hms : ∀ m, ms.head? = some m → m.isToken = false) :
    runs (spelled p ++ ms) = words p ++ runs ms := by
  obtain ⟨n, v, comment⟩ := p
  cases v with
  | none => simpa [spelled, print, words] using runs_token hname hms
  | some v =>
      have hslash : (Mark.outside '/').isToken = false := by decide
      have hname : runs (n.map .outside ++ .outside '/' :: (v.map .outside ++ ms)) = _ :=
        runs_token hname (by rintro m ⟨⟩; exact hslash)
      rw [runs_cons hslash, runs_token (hversion v rfl) hms] at hname
      simpa [spelled, print, words] using hname

/-- **Names and versions are the runs of the outline, in their order.** -/
theorem runs_eq (h : Laid ps ms) : runs ms = ps.flatMap words := by
  induction h with
  | nil => exact runs_nil
  | cons hname hversion hgap _ hparted hrest ih =>
      have hhead := head_gap hgap (fun hne => (hparted hne).1) hrest
      rw [runs_spelled hname hversion hhead, runs_append hgap, ih, List.flatMap_cons]

end Laid

/-! ## What the scan finds -/

theorem ne_open_of_isBlank {c : Char} (h : isBlank c = true) : c ≠ '(' := by
  rintro rfl
  exact absurd h (by decide)

theorem not_isTokenChar_of_isBlank {c : Char} (h : isBlank c = true) : isTokenChar c = false := by
  by_contra htoken
  rw [not_isBlank_of_isTokenChar (by simpa using htoken)] at h
  cases h

/-- What a gap does to the products before it: each comment is offered to the last one. -/
def attachAll : List Mark → List Product → List Product
  | [], found => found
  | .comment inner :: gap, found => attachAll gap (attach (Text.trim inner) found)
  | .outside _ :: gap, found => attachAll gap found

theorem attachAll_nil_right (gap : List Mark) : attachAll gap [] = [] := by
  induction gap with
  | nil => rfl
  | cons m gap ih => cases m <;> exact ih

/-- A product that has its comment keeps it. -/
theorem attachAll_of_comment {p : Product} {c : Text} (hp : p.comment = some c) (gap : List Mark)
    (found : List Product) : attachAll gap (p :: found) = p :: found := by
  induction gap with
  | nil => rfl
  | cons m gap ih =>
      cases m with
      | outside _ => exact ih
      | comment inner =>
          have hattach : attach (Text.trim inner) (p :: found) = p :: found := by
            simp [attach, hp]
          rw [attachAll, hattach, ih]

/-- **The last product gets the first comment of the gap that is not blank.** -/
theorem attachAll_cons {p : Product} (hp : p.comment = none) (gap : List Mark)
    (found : List Product) :
    attachAll gap (p :: found) = { p with comment := firstComment gap } :: found := by
  induction gap with
  | nil => simp [attachAll, firstComment, ← hp]
  | cons m gap ih =>
      cases m with
      | outside _ => exact ih
      | comment inner =>
          rw [attachAll]
          cases htrim : Text.trim inner with
          | nil =>
              have hattach : attach [] (p :: found) = p :: found := by simp [attach]
              rw [hattach, ih]
              simp [firstComment, Mark.content?, htrim, unlessEmpty]
          | cons c t =>
              have hattach : attach (c :: t) (p :: found) =
                  { p with comment := some (c :: t) } :: found := by simp [attach, hp]
              rw [hattach, attachAll_of_comment rfl]
              simp [firstComment, Mark.content?, htrim, unlessEmpty_some]

/-- The three ways in which a text goes on behind a name. -/
theorem splitVersion_cases (r : Text) :
    (splitVersion r = (none, r) ∧ r.head? ≠ some '/') ∨
    (∃ u : Text, r = '/' :: u ∧ splitVersion r = (some [], u) ∧ u.EndsToken) ∨
    ∃ v u : Text, r = '/' :: (v ++ u) ∧ splitVersion r = (some v, u) ∧ v.isToken = true ∧
      u.EndsToken := by
  unfold splitVersion
  split
  · rename_i t
    have hends := Text.endsToken_dropWhile t
    have hsplit : t.takeWhile isTokenChar ++ t.dropWhile isTokenChar = t :=
      List.takeWhile_append_dropWhile
    right
    by_cases hempty : t.takeWhile isTokenChar = []
    · rw [hempty, List.nil_append] at hsplit
      exact Or.inl ⟨t, rfl, by rw [hempty, hsplit], hsplit ▸ hends⟩
    · refine Or.inr ⟨_, _, by rw [hsplit], rfl, ?_, hends⟩
      exact Text.isToken_iff.mpr ⟨hempty, fun c hc => List.mem_takeWhile_imp hc⟩
  · rename_i hslash
    refine Or.inl ⟨rfl, fun hhead => ?_⟩
    obtain ⟨u, rfl⟩ := List.head?_eq_some_iff.mp hhead
    exact hslash u rfl

/-- What the scan finds from a text on: a gap that belongs to the products before, and products that
lie behind it. -/
def Finds (found : List Product) (t : Text) (ms : List Mark) : Prop :=
  ∃ gap rest ps, ms = gap ++ rest ∧ (∀ m ∈ gap, m.isToken = false) ∧ Laid ps rest ∧
    scan found t = (attachAll gap found).reverse ++ ps

section Finds

variable {found : List Product} {n r t u : Text} {m : Mark} {ms : List Mark}

theorem finds_nil : Finds found [] [] :=
  ⟨[], [], [], rfl, by simp, .nil, by simp [scan, attachAll]⟩

/-- A mark without a token joins the gap. -/
theorem finds_cons (hm : m.isToken = false) (h : Finds (attachAll [m] found) u ms)
    (hscan : scan found t = scan (attachAll [m] found) u) : Finds found t (m :: ms) := by
  obtain ⟨gap, rest, ps, rfl, hgap, hlaid, hfound⟩ := h
  refine ⟨m :: gap, rest, ps, rfl, List.forall_mem_cons.mpr ⟨hm, hgap⟩, hlaid, ?_⟩
  rw [hscan, hfound]
  cases m <;> rfl

/-- A product begins where a name is scanned.  A slash behind it that no version follows goes to the
gap. -/
theorem finds_product (v : Option Text) (lead : List Mark) (hn : n.isToken = true)
    (hv : ∀ w ∈ v, w.isToken = true) (hlead : lead = [] ∨ lead = [.outside '/'])
    (hhead : ∀ m, ms.head? = some m → m.isToken = false)
    (hslash : v = none → lead = [] → ms.head? ≠ some (.outside '/'))
    (h : Finds (⟨n, v, none⟩ :: found) u ms)
    (hscan : scan found t = scan (⟨n, v, none⟩ :: found) u) :
    Finds found t (spelled ⟨n, v, none⟩ ++ (lead ++ ms)) := by
  obtain ⟨gap, rest, ps, rfl, hgap, hlaid, hfound⟩ := h
  have hgapped : ps ≠ [] → gap ≠ [] := by
    rintro hps rfl
    obtain ⟨p, ps, rfl⟩ := List.exists_cons_of_ne_nil hps
    obtain ⟨m, hm, htoken⟩ := hlaid.isToken_head
    rw [hhead m hm] at htoken
    cases htoken
  have hall : ∀ m ∈ lead ++ gap, m.isToken = false := by
    rcases hlead with rfl | rfl
    · exact hgap
    · exact List.forall_mem_cons.mpr ⟨by decide, hgap⟩
  have hcomment : firstComment gap = firstComment (lead ++ gap) := by
    rcases hlead with rfl | rfl <;> rfl
  have hparted : ps ≠ [] → lead ++ gap ≠ [] ∧ (v = none → lead ++ gap ≠ [.outside '/']) := by
    intro hps
    refine ⟨by simp [hgapped hps], ?_⟩
    rintro hnone heq
    rcases hlead with rfl | rfl
    · rw [List.nil_append] at heq
      exact hslash hnone rfl (by simp [heq])
    · exact hgapped hps (List.cons.inj heq).2
  refine ⟨[], _, ⟨n, v, firstComment gap⟩ :: ps, rfl, by simp, ?_, ?_⟩
  · rw [← List.append_assoc lead]
    exact .cons hn hv hall hcomment hparted hlaid
  · rw [hscan, hfound, attachAll_cons rfl]
    simp [attachAll]

/-- A name with what follows it is a product, whichever way the text goes on. -/
theorem finds_token (hn : n.isToken = true) (hr : r.EndsToken) (h : Outlines r ms)
    (ih : ∀ ms, Outlines (splitVersion r).2 ms →
      Finds (.of n (splitVersion r).1 none :: found) (splitVersion r).2 ms) :
    Finds found (n ++ r) (n.map .outside ++ ms) := by
  have hscan := @scan_token found n r hn hr
  rcases splitVersion_cases r with ⟨heq, hslash⟩ | ⟨u, rfl, heq, hu⟩ | ⟨w, u, rfl, heq, hw, hu⟩
  · rw [heq] at ih hscan
    have hfinds := finds_product none [] hn (by simp) (.inl rfl)
      (h.not_isToken_head hr) ?_ (ih ms h) hscan
    · simpa [spelled, print] using hfinds
    · rintro - - hhead
      obtain ⟨rest, rfl⟩ := List.head?_eq_some_iff.mp hhead
      exact hslash h.head?_eq
  · rw [heq] at ih hscan
    obtain ⟨rest, rfl, hrest⟩ := (Outlines.cons_iff (by decide)).mp h
    have hfinds := finds_product none [.outside '/'] hn (by simp) (.inr rfl)
      (hrest.not_isToken_head hu) (by simp) (ih rest hrest) hscan
    simpa [spelled, print] using hfinds
  · rw [heq, of, unlessEmpty_some (Text.isToken_iff.mp hw).1] at ih hscan
    obtain ⟨behind, rfl, hbehind⟩ := (Outlines.cons_iff (by decide)).mp h
    obtain ⟨rest, rfl, hrest⟩ := (Outlines.append_iff (Text.isToken_iff.mp hw).2).mp hbehind
    have hfinds := finds_product (some w) [] hn (by simpa using hw) (.inl rfl)
      (hrest.not_isToken_head hu) (by simp) (ih rest hrest) hscan
    simpa [spelled, print] using hfinds

/-- **The scan finds what lies in the outline**, whatever was found before. -/
theorem finds_scan (h : Outlines t ms) : Finds found t ms := by
  fun_induction scan found t generalizing ms with
  | case1 found =>
      rw [Outlines.nil_iff.mp h]
      exact finds_nil
  | case2 found c t hblank ih =>
      obtain ⟨rest, rfl, hrest⟩ := (Outlines.cons_iff (ne_open_of_isBlank hblank)).mp h
      exact finds_cons (not_isTokenChar_of_isBlank hblank) (ih hrest) (scan_blank hblank t)
  | case3 found t hblank ih =>
      obtain ⟨rest, rfl, hrest⟩ := Outlines.open_iff.mp h
      refine finds_cons rfl (ih hrest) ?_
      rw [scan, if_neg hblank, if_pos rfl]
      rfl
  | case4 found c t hblank hopen htoken ih =>
      have hsplit : c :: t = (c :: t.takeWhile isTokenChar) ++ t.dropWhile isTokenChar := by
        rw [List.cons_append, List.takeWhile_append_dropWhile]
      have hchars : ∀ d ∈ c :: t.takeWhile isTokenChar, isTokenChar d = true :=
        List.forall_mem_cons.mpr ⟨htoken, fun d hd => List.mem_takeWhile_imp hd⟩
      rw [hsplit] at h ⊢
      obtain ⟨rest, rfl, hrest⟩ := (Outlines.append_iff hchars).mp h
      exact finds_token (Text.isToken_iff.mpr ⟨List.cons_ne_nil _ _, hchars⟩)
        (Text.endsToken_dropWhile t) hrest fun _ => ih
  | case5 found c t hblank hopen htoken ih =>
      obtain ⟨rest, rfl, hrest⟩ := (Outlines.cons_iff hopen).mp h
      refine finds_cons (Bool.eq_false_iff.mpr htoken) (ih hrest) ?_
      rw [scan, if_neg hblank, if_neg hopen, if_neg htoken]
      rfl

end Finds

/-! ## Rounds -/

/-- One round of the scan: a comment, a name with its version, or another character, and the blanks
after it. -/
def round (found : List Product) : Text → List Product × Text
  | [] => (found, [])
  | c :: t =>
    if c = '(' then
      (attach (Text.trim (closeComment 0 [] t).1) found, Text.trimStart (closeComment 0 [] t).2)
    else if isTokenChar c then
      (.of (c :: t.takeWhile isTokenChar) (splitVersion (t.dropWhile isTokenChar)).1 none :: found,
        Text.trimStart (splitVersion (t.dropWhile isTokenChar)).2)
    else (found, Text.trimStart t)

/-- The scan goes on where text is left. -/
def Continues (a b : List Product × Text) : Prop :=
  a.2 ≠ [] ∧ b = round a.1 a.2

theorem length_trimStart_le (t : Text) : (Text.trimStart t).length ≤ t.length :=
  dropWhile_length_le isBlank t

/-- **Each round leaves less text.** -/
theorem length_round_lt (found : List Product) {t : Text} (ht : t ≠ []) :
    (round found t).2.length < t.length := by
  obtain ⟨c, t, rfl⟩ := List.exists_cons_of_ne_nil ht
  rw [round, List.length_cons]
  split_ifs
  · have htrim := length_trimStart_le (closeComment 0 [] t).2
    have hclose := closeComment_length_le 0 [] t
    dsimp only
    omega
  · have htrim := length_trimStart_le (splitVersion (t.dropWhile isTokenChar)).2
    have hversion := splitVersion_length_le (t.dropWhile isTokenChar)
    have hdrop := dropWhile_length_le isTokenChar t
    dsimp only
    omega
  · have htrim := length_trimStart_le t
    dsimp only
    omega

theorem scan_trimStart (found : List Product) (t : Text) :
    scan found (Text.trimStart t) = scan found t := by
  induction t with
  | nil => rfl
  | cons c t ih =>
      by_cases hc : isBlank c = true
      · rw [scan_blank hc, ← ih, Text.trimStart, List.dropWhile_cons_of_pos hc, Text.trimStart]
      · rw [Text.trimStart, List.dropWhile_cons_of_neg hc]

/-- A round changes nothing for what is found in the end. -/
theorem scan_round (found : List Product) {t : Text} (ht : t ≠ []) :
    scan (round found t).1 (round found t).2 = scan found t := by
  obtain ⟨c, t, rfl⟩ := List.exists_cons_of_ne_nil ht
  rw [round]
  by_cases hblank : isBlank c = true
  · have htoken := Bool.eq_false_iff.mp (not_isTokenChar_of_isBlank hblank)
    rw [if_neg (ne_open_of_isBlank hblank), if_neg htoken, scan_trimStart, scan_blank hblank]
  · rw [scan, if_neg hblank]
    split_ifs <;> rw [scan_trimStart]

/-- Round after round the scan comes to the end of any text. -/
theorem exists_continues (found : List Product) (t : Text) :
    ∃ last, Relation.ReflTransGen Continues (found, t) (last, []) ∧
      scan found t = last.reverse := by
  induction hlength : t.length using Nat.strong_induction_on generalizing found t with
  | _ k ih =>
      by_cases ht : t = []
      · subst ht
        exact ⟨found, .refl, by rw [scan]⟩
      · have hlt := length_round_lt found ht
        obtain ⟨last, hsteps, hscan⟩ := ih _ (by omega) (round found t).1 (round found t).2 rfl
        exact ⟨last, .head ⟨ht, rfl⟩ hsteps, by rw [← scan_round found ht, hscan]⟩

/-- **The products of a text have its runs for names and versions.**  Each round of the scan leaves
less text, so the scan ends; no comment that it reads closes more parentheses than it opens.  The
text has an outline.  In any outline of it, the names and versions of the products are the runs of
token characters outside of comments, all of them and in their order; and the products lie in it one
after the other: a run is a version exactly if only a slash is between it and a name, and the first
comment behind a product and before the next one that is not blank is its comment. -/
theorem readAll_keeps_runs (t : Text) :
    (∀ found u, u ≠ [] → (round found u).2.length < u.length) ∧
    (∃ last, Relation.ReflTransGen Continues ([], Text.trimStart t) (last, []) ∧
      readAll t = last.reverse) ∧
    (∀ u, Text.StaysOpen 0 (closeComment 0 [] u).1) ∧
    (∃ ms, Outlines t ms) ∧
    ∀ ms, Outlines t ms →
      (readAll t).flatMap words = runs ms ∧
      ∃ lead rest, ms = lead ++ rest ∧ (∀ m ∈ lead, m.isToken = false) ∧ Laid (readAll t) rest := by
  refine ⟨fun found u => length_round_lt found, ?_, staysOpen_closeComment, exists_outlines t, ?_⟩
  · obtain ⟨last, hsteps, hscan⟩ := exists_continues [] (Text.trimStart t)
    exact ⟨last, hsteps, by rw [readAll, ← scan_trimStart, hscan]⟩
  · intro ms h
    obtain ⟨lead, rest, ps, rfl, hlead, hlaid, hscan⟩ := (finds_scan h : Finds [] t ms)
    rw [attachAll_nil_right, List.reverse_nil, List.nil_append] at hscan
    rw [readAll, hscan]
    exact ⟨by rw [runs_append hlead, hlaid.runs_eq], lead, rest, rfl, hlead, hlaid⟩

end Product

end ContentNegotiation
