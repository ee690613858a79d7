import ContentNegotiation.Agent.Product

/-!
# The first product of a text

What the scanner of products makes of a text that begins with a token.

* `Text.EndsToken` — a text with which no token can go on.
* `Text.token_append_inj` — a token and what follows it are found in only one way.
* `Leads` — the invariant of the scan: the product read first keeps its name and its version, since
  later text can only give it a comment.

Principal results: `Product.readAll_of_name` and `Product.readAll_of_version` (name and version of
the first product).
-/

namespace ContentNegotiation

namespace Text

/-- No token can go on with this text. -/
def EndsToken (t : Text) : Prop := ∀ c, t.head? = some c → isTokenChar c = false

theorem endsToken_nil : EndsToken [] := by
  intro c h
  cases h

theorem endsToken_cons {c : Char} {t : Text} (h : isTokenChar c = false) : EndsToken (c :: t) := by
  intro d hd
  obtain rfl : c = d := Option.some.inj hd
  exact h

theorem endsToken_slash (t : Text) : EndsToken ('/' :: t) :=
  endsToken_cons (by decide)

theorem endsToken_dropWhile (t : Text) : EndsToken (t.dropWhile isTokenChar) := by
  intro c hc
  simpa [hc] using List.head?_dropWhile_not isTokenChar t

theorem EndsToken.takeWhile {t : Text} (h : EndsToken t) : t.takeWhile isTokenChar = [] := by
  cases t with
  | nil => rfl
  | cons c t => rw [List.takeWhile_cons_of_neg (by rw [h c rfl]; exact Bool.false_ne_true)]

theorem EndsToken.dropWhile {t : Text} (h : EndsToken t) : t.dropWhile isTokenChar = t := by
  cases t with
  | nil => rfl
  | cons c t => rw [List.dropWhile_cons_of_neg (by rw [h c rfl]; exact Bool.false_ne_true)]

theorem takeWhile_token {n t : Text} (hn : n.isToken = true) (ht : EndsToken t) :
    (n ++ t).takeWhile isTokenChar = n := by
  rw [List.takeWhile_append_of_pos (isToken_iff.mp hn).2, ht.takeWhile, List.append_nil]

theorem dropWhile_token {n t : Text} (hn : n.isToken = true) (ht : EndsToken t) :
    (n ++ t).dropWhile isTokenChar = t := by
  rw [List.dropWhile_append_of_pos (isToken_iff.mp hn).2, ht.dropWhile]

/-- A token and what follows it are found in only one way. -/
theorem token_append_inj {n m s t : Text} (hn : n.isToken = true) (hm : m.isToken = true)
    (hs : EndsToken s) (ht : EndsToken t) (h : n ++ s = m ++ t) : n = m ∧ s = t := by
  have hnm : n = m := by
    rw [← takeWhile_token hn hs, h, takeWhile_token hm ht]
  subst hnm
  exact ⟨rfl, List.append_cancel_left h⟩

end Text

namespace Product

theorem unlessEmpty_some {t : Text} (h : t ≠ []) : unlessEmpty (some t) = some t := by
  cases t with
  | nil => exact absurd rfl h
  | cons c t => rfl

/-- What is left of a text unless it is empty is that text, and not empty. -/
theorem unlessEmpty_some_eq_iff {t u : Text} :
    unlessEmpty (some t) = some u ↔ u ≠ [] ∧ u = t := by
  cases t with
  | nil =>
      constructor
      · intro h
        cases h
      · rintro ⟨hne, rfl⟩
        exact absurd rfl hne
  | cons c t =>
      constructor
      · intro h
        obtain rfl : c :: t = u := Option.some.inj h
        exact ⟨List.cons_ne_nil _ _, rfl⟩
      · rintro ⟨-, rfl⟩
        rfl

/-! ## The product read first -/

/-- Of the products read so far, which come last one first, the first one has this name and this
version. -/
def Leads (found : List Product) (name : Text) (version : Option Text) : Prop :=
  ∃ newer p, found = newer ++ [p] ∧ p.name = name ∧ p.version = version

section Scan

variable {found : List Product} {name : Text} {version : Option Text}

theorem leads_cons (h : Leads found name version) (p : Product) :
    Leads (p :: found) name version := by
  obtain ⟨newer, first, rfl, hname, hversion⟩ := h
  exact ⟨p :: newer, first, rfl, hname, hversion⟩

/-- A comment changes neither names nor versions. -/
theorem leads_attach (h : Leads found name version) (comment : Text) :
    Leads (attach comment found) name version := by
  obtain ⟨newer, first, rfl, hname, hversion⟩ := h
  cases newer with
  | nil =>
      rw [List.nil_append, attach]
      split
      · exact ⟨[], _, rfl, hname, hversion⟩
      · exact ⟨[], first, rfl, hname, hversion⟩
  | cons p newer =>
      rw [List.cons_append, attach]
      split
      · exact ⟨_ :: newer, first, rfl, hname, hversion⟩
      · exact ⟨p :: newer, first, rfl, hname, hversion⟩

/-- Whatever text follows, the first product keeps its name and its version. -/
theorem scan_of_leads (t : Text) (h : Leads found name version) :
    ∃ p ps, scan found t = p :: ps ∧ p.name = name ∧ p.version = version := by
  fun_induction scan found t with
  | case1 found =>
      obtain ⟨newer, first, rfl, hname, hversion⟩ := h
      exact ⟨first, newer.reverse, by rw [List.reverse_append]; rfl, hname, hversion⟩
  | case2 found c t hblank ih => exact ih h
  | case3 found t hblank ih => exact ih (leads_attach h _)
  | case4 found c t hblank hopen htoken ih => exact ih (leads_cons h _)
  | case5 found c t hblank hopen htoken ih => exact ih h

end Scan

theorem ne_open_of_isTokenChar {c : Char} (h : isTokenChar c = true) : c ≠ '(' := by
  rintro rfl
  exact absurd h (by decide)

/-- A text that begins with a token is scanned into the product of that token first. -/
theorem scan_token {found : List Product} {n t : Text} (hn : n.isToken = true)
    (ht : Text.EndsToken t) :
    scan found (n ++ t) = scan (.of n (splitVersion t).1 none :: found) (splitVersion t).2 := by
  have htake := Text.takeWhile_token hn ht
  have hdrop := Text.dropWhile_token hn ht
  obtain ⟨hne, hchars⟩ := Text.isToken_iff.mp hn
  obtain ⟨c, n, rfl⟩ := List.exists_cons_of_ne_nil hne
  have hc : isTokenChar c = true := hchars c List.mem_cons_self
  rw [List.cons_append, List.takeWhile_cons_of_pos hc, List.cons.injEq] at htake
  rw [List.cons_append, List.dropWhile_cons_of_pos hc] at hdrop
  have hblank : ¬ isBlank c = true := by
    rw [not_isBlank_of_isTokenChar hc]
    exact Bool.false_ne_true
  rw [List.cons_append, scan, if_neg hblank, if_neg (ne_open_of_isTokenChar hc), if_pos hc, htake.2,
    hdrop]

theorem splitVersion_token {v t : Text} (hv : v.isToken = true) (ht : Text.EndsToken t) :
    splitVersion ('/' :: (v ++ t)) = (some v, t) := by
  rw [splitVersion, Text.takeWhile_token hv ht, Text.dropWhile_token hv ht]

/-- **The first product of a text that begins with a token** has that token for its name, and the
version that follows it, if one does. -/
theorem readAll_of_lead {n t : Text} (hn : n.isToken = true) (ht : Text.EndsToken t) :
    ∃ p ps, readAll (n ++ t) = p :: ps ∧ p.name = n ∧
      p.version = unlessEmpty (splitVersion t).1 := by
  unfold readAll
  rw [scan_token hn ht]
  exact scan_of_leads _ ⟨[], _, rfl, rfl, rfl⟩

theorem readAll_of_name {n : Text} (hn : n.isToken = true) :
    ∃ p ps, readAll n = p :: ps ∧ p.name = n ∧ p.version = none := by
  have hread := readAll_of_lead hn Text.endsToken_nil
  rw [List.append_nil] at hread
  exact hread

theorem readAll_of_version {n v t : Text} (hn : n.isToken = true) (hv : v.isToken = true)
    (ht : Text.EndsToken t) :
    ∃ p ps, readAll (n ++ '/' :: (v ++ t)) = p :: ps ∧ p.name = n ∧ p.version = some v := by
  have hread := readAll_of_lead hn (Text.endsToken_slash (v ++ t))
  rw [splitVersion_token hv ht, unlessEmpty_some (Text.isToken_iff.mp hv).1] at hread
  exact hread

end Product

end ContentNegotiation
