import ContentNegotiation.Proofs.Agent.Plain
import ContentNegotiation.Regex.Parser

/-!
# Agents that lead with a product token

An agent string that does not claim to be Mozilla is resolved by the four plain patterns.  They
overlap, and the first one that matches decides.

* `PlainAgent` — the three forms of an agent string that leads with a product token.
* `Annotates` — the rest of an agent string begins with a comment of its own.
* `Encloses` — the same of the comment that a pattern captures; there is at most one
  (`encloses_unique`), so it does not matter which split is found first.
* `Told` — what a product says of an agent string, whichever pattern it comes from.

Principal result: `Catalog.resolve_builtin_of_lead` (which agents are resolved, what is told of
them, and that the scanner of products agrees).
-/

namespace ContentNegotiation

/-! ## The forms of an agent string -/

/-- An agent string is a name, a name with a version, or these two and a blank with any rest. -/
inductive PlainAgent : Text → Text → Option Text → Text → Prop where
  | bare {n : Text} : n.isToken = true → PlainAgent n n none []
  | versioned {n v : Text} : n.isToken = true → v.isToken = true →
      PlainAgent (n ++ '/' :: v) n (some v) []
  | followed {n v : Text} (r : Text) : n.isToken = true → v.isToken = true →
      PlainAgent (n ++ '/' :: (v ++ ' ' :: r)) n (some v) r

/-- The rest of an agent string is a comment in parentheses, or goes on behind it with a blank. -/
structure Annotates (c r : Text) : Prop where
  nonempty : c ≠ []
  balanced : c.Balanced
  printable : ∀ x ∈ c, isControl x = true → x = '\t'
  placed : r = '(' :: (c ++ [')']) ∨ ∃ d, r = '(' :: (c ++ ')' :: ' ' :: d)

namespace Catalog

namespace Builtin

/-! ## The comment -/

variable [RegexEngine]

/-- A version is followed by a comment in parentheses, and by a blank where anything follows it. -/
def Encloses (c t : Text) : Prop :=
  commentSlot.Captures c ∧ ∃ s, t = ' ' :: '(' :: (c ++ ')' :: s) ∧ Tailed s

/-- **There is only one comment to be found.** -/
theorem encloses_unique {c d t : Text} (hc : Encloses c t) (hd : Encloses d t) : c = d := by
  obtain ⟨hcap, s, rfl, -⟩ := hc
  obtain ⟨hcap', s', heq, -⟩ := hd
  have hbody : c ++ ')' :: s = d ++ ')' :: s' := (List.cons.inj (List.cons.inj heq).2).2
  exact (Text.balanced_append_close_inj (captures_comment_iff.mp hcap).2
    (captures_comment_iff.mp hcap').2 hbody).1

theorem annotates_iff_encloses {c r : Text} : Annotates c r ↔ c ≠ [] ∧ Encloses c (' ' :: r) := by
  constructor
  · rintro ⟨hne, hbal, hchars, hplaced⟩
    refine ⟨hne, captures_comment_iff.mpr ⟨hchars, hbal⟩, ?_⟩
    rcases hplaced with rfl | ⟨d, rfl⟩
    · exact ⟨[], rfl, Or.inl rfl⟩
    · exact ⟨' ' :: d, rfl, Or.inr ⟨d, rfl⟩⟩
  · rintro ⟨hne, hcap, s, heq, hs⟩
    obtain ⟨hchars, hbal⟩ := captures_comment_iff.mp hcap
    obtain rfl : r = '(' :: (c ++ ')' :: s) := (List.cons.inj heq).2
    refine ⟨hne, hbal, hchars, ?_⟩
    rcases hs with rfl | ⟨d, rfl⟩
    · exact Or.inl rfl
    · exact Or.inr ⟨d, rfl⟩

omit [RegexEngine] in
theorem not_annotates_nil (c : Text) : ¬ Annotates c [] := by
  intro h
  rcases h.placed with hp | ⟨d, hp⟩
  · cases hp
  · cases hp

/-- A product has this name and this version, and for its comment the one that follows them. -/
structure Told (p : Product) (n v t : Text) : Prop where
  name : p.name = n
  version : p.version = some v
  comment : ∀ c, p.comment = some c ↔ c ≠ [] ∧ Encloses c t

theorem told_of_encloses {n v c t : Text} (hv : v.isToken = true) (hc : Encloses c t) :
    Told (.of n (some v) (some c)) n v t := by
  refine ⟨rfl, Product.unlessEmpty_some (Text.isToken_iff.mp hv).1, ?_⟩
  intro d
  unfold Product.of
  rw [Product.unlessEmpty_some_eq_iff]
  constructor
  · rintro ⟨hne, rfl⟩
    exact ⟨hne, hc⟩
  · rintro ⟨hne, hd⟩
    exact ⟨hne, encloses_unique hd hc⟩

theorem told_of_not_encloses {n v t : Text} (hv : v.isToken = true) (hc : ∀ c, ¬ Encloses c t) :
    Told (.of n (some v) none) n v t := by
  refine ⟨rfl, Product.unlessEmpty_some (Text.isToken_iff.mp hv).1, ?_⟩
  intro d
  refine iff_of_false (by rintro ⟨⟩) ?_
  rintro ⟨-, hd⟩
  exact hc d hd

/-! ## What a split tells -/

omit [RegexEngine] in
/-- Behind a name and a version only the comment is still open. -/
theorem exists_ofMatch_headed {n v : Text} {qs : List Piece} {comment : Option Text}
    (hname : ¬ Piece.Captured qs StandardVariable.agentName)
    (hversion : ¬ Piece.Captured qs StandardVariable.agentVersion)
    (hcomment : (TemplateMatch.ofPieces (headPieces n v ++ qs)).value
      StandardVariable.agentComment = comment) :
    ∃ res, Resolution.ofMatch (.ofPieces (headPieces n v ++ qs)) = some res ∧
      res.product = .of n (some v) comment := by
  unfold Resolution.ofMatch
  rw [TemplateMatch.value_ofPieces ((lastCapture_name n v).append hname) rfl,
    TemplateMatch.value_ofPieces ((lastCapture_version n v).append hversion) rfl, hcomment]
  exact ⟨_, rfl, rfl⟩

/-- The names from which a product is made. -/
def productNames : List Text :=
  [StandardVariable.agentName, StandardVariable.agentVersion, StandardVariable.agentComment]

theorem exists_told_of_comment {n v c t : Text} {after : List Piece} (hv : v.isToken = true)
    (hafter : ∀ name ∈ productNames, ¬ Piece.Captured after name) (hc : Encloses c t) :
    ∃ res, Resolution.ofMatch (.ofPieces (headPieces n v ++
      .literal [' ', '('] :: .captured commentSlot c :: after)) = some res ∧
        Told res.product n v t := by
  have hlast : Piece.LastCapture
      (headPieces n v ++ .literal [' ', '('] :: .captured commentSlot c :: after)
      StandardVariable.agentComment commentSlot c :=
    ⟨headPieces n v ++ [.literal [' ', '(']], after, by simp, rfl,
      hafter _ (by simp [productNames])⟩
  have hother : ∀ name ∈ productNames, name ≠ StandardVariable.agentComment →
      ¬ Piece.Captured (.literal [' ', '('] :: .captured commentSlot c :: after) name := by
    intro name hname hne
    rw [Piece.captured_literal_iff, Piece.captured_slot_iff]
    rintro (rfl | h)
    · exact hne rfl
    · exact hafter name hname h
  obtain ⟨res, hres, hproduct⟩ := exists_ofMatch_headed
    (hother _ (by simp [productNames]) (by decide)) (hother _ (by simp [productNames]) (by decide))
    (TemplateMatch.value_ofPieces hlast rfl)
  refine ⟨res, hres, ?_⟩
  rw [hproduct]
  exact told_of_encloses hv hc

theorem exists_told_of_no_comment {n v t : Text} {qs : List Piece} (hv : v.isToken = true)
    (hqs : ∀ name ∈ productNames, ¬ Piece.Captured qs name) (hc : ∀ c, ¬ Encloses c t) :
    ∃ res, Resolution.ofMatch (.ofPieces (headPieces n v ++ qs)) = some res ∧
      Told res.product n v t := by
  have hnone : ¬ Piece.Captured (headPieces n v ++ qs) StandardVariable.agentComment := by
    rw [Piece.captured_append_iff, not_or]
    exact ⟨not_captured_headPieces n v (by simp), hqs _ (by simp [productNames])⟩
  obtain ⟨res, hres, hproduct⟩ := exists_ofMatch_headed (hqs _ (by simp [productNames]))
    (hqs _ (by simp [productNames])) (TemplateMatch.value_ofPieces_of_not_captured hnone)
  refine ⟨res, hres, ?_⟩
  rw [hproduct]
  exact told_of_not_encloses hv hc

/-! ## The first of the four patterns that matches -/

section Overlap

variable {n v t : Text}

theorem reading_noted (hn : n.isToken = true) (hv : v.isToken = true) (ht : Tailed t) :
    (reading (n ++ '/' :: (v ++ t)) (headed noted) = none ∧
        ∀ qs, Fits noted qs → Piece.covered qs ≠ t) ∨
      ∃ res, reading (n ++ '/' :: (v ++ t)) (headed noted) = some res ∧ Told res.product n v t := by
  refine reading_headed hn hv ht (by simp) (fun p => Told p n v t) ?_
  intro qs hqs hcovered
  obtain ⟨c, d, hc, rfl⟩ := fits_noted_iff.mp hqs
  refine exists_told_of_comment hv ?_ ⟨hc, ' ' :: d, ?_, Or.inr ⟨d, rfl⟩⟩
  · simp only [Piece.captured_literal_iff, Piece.captured_slot_iff, Piece.not_captured_nil]
    decide
  · rw [← hcovered]
    simp [Piece.text]

theorem reading_enclosed (hn : n.isToken = true) (hv : v.isToken = true) (ht : Tailed t) :
    (reading (n ++ '/' :: (v ++ t)) (headed enclosed) = none ∧
        ∀ qs, Fits enclosed qs → Piece.covered qs ≠ t) ∨
      ∃ res, reading (n ++ '/' :: (v ++ t)) (headed enclosed) = some res ∧
        Told res.product n v t := by
  refine reading_headed hn hv ht (by simp) (fun p => Told p n v t) ?_
  intro qs hqs hcovered
  obtain ⟨c, hc, rfl⟩ := fits_enclosed_iff.mp hqs
  refine exists_told_of_comment hv ?_ ⟨hc, [], ?_, Or.inl rfl⟩
  · simp
  · rw [← hcovered]
    simp [Piece.text]

/-- The third pattern matches whatever follows the version. -/
theorem reading_trailed (hn : n.isToken = true) (hv : v.isToken = true) (ht : Tailed t)
    (hc : ∀ c, ¬ Encloses c t) :
    ∃ res, reading (n ++ '/' :: (v ++ t)) (headed trailed) = some res ∧ Told res.product n v t := by
  have hmem : trailed ∈ [noted, enclosed, trailed] := by simp
  have htold : ∀ qs, Fits trailed qs → Piece.covered qs = t →
      ∃ res, Resolution.ofMatch (.ofPieces (headPieces n v ++ qs)) = some res ∧
        Told res.product n v t := by
    intro qs hqs _
    refine exists_told_of_no_comment hv ?_ hc
    rcases fits_trailed_iff.mp hqs with ⟨d, rfl⟩ | rfl
    · simp only [Piece.captured_literal_iff, Piece.captured_slot_iff, Piece.not_captured_nil]
      decide
    · simp only [Piece.captured_skipped_iff, Piece.captured_slot_iff, Piece.not_captured_nil]
      decide
  rcases reading_headed hn hv ht hmem (fun p => Told p n v t) htold with ⟨-, hno⟩ | hsome
  · exfalso
    rcases ht with rfl | ⟨r, rfl⟩
    · exact hno _ (fits_trailed_iff.mpr (Or.inr rfl)) rfl
    · exact hno _ (fits_trailed_iff.mpr (Or.inl ⟨r, rfl⟩)) (by simp [Piece.text])
  · exact hsome

/-- **A name and a version are always read**, and the comment with them if there is one. -/
theorem findSome?_plain_headed (hn : n.isToken = true) (hv : v.isToken = true) (ht : Tailed t) :
    ∃ res, (plain.map nodes).findSome? (reading (n ++ '/' :: (v ++ t))) = some res ∧
      Told res.product n v t := by
  rw [nodes_plain]
  rcases reading_noted hn hv ht with ⟨hnone, hnoted⟩ | ⟨res, hres, htold⟩
  · rcases reading_enclosed hn hv ht with ⟨hnone', henclosed⟩ | ⟨res, hres, htold⟩
    · -- A comment at the end would have been taken by the second pattern, one with more text
      -- behind it by the first, so there is none left for the third to miss.
      have hc : ∀ c, ¬ Encloses c t := by
        rintro c ⟨hcap, s, rfl, rfl | ⟨d, rfl⟩⟩
        · exact henclosed _ (fits_enclosed_iff.mpr ⟨c, hcap, rfl⟩) (by simp [Piece.text])
        · exact hnoted _ (fits_noted_iff.mpr ⟨c, d, hcap, rfl⟩) (by simp [Piece.text])
      obtain ⟨res, hres, htold⟩ := reading_trailed hn hv ht hc
      exact ⟨res, by rw [List.findSome?_cons, hnone, List.findSome?_cons, hnone',
        List.findSome?_cons, hres], htold⟩
    · exact ⟨res, by rw [List.findSome?_cons, hnone, List.findSome?_cons, hres], htold⟩
  · exact ⟨res, by rw [List.findSome?_cons, hres], htold⟩

end Overlap

/-! ## A name alone -/

theorem findSome?_plain_bare {n : Text} (hn : n.isToken = true) :
    ∃ res, (plain.map nodes).findSome? (reading n) = some res ∧ res.product = ⟨n, none, none⟩ := by
  have hlast : Piece.LastCapture [.captured nameSlot n] StandardVariable.agentName nameSlot n :=
    ⟨[], [], rfl, rfl, Piece.not_captured_nil⟩
  have hother : ∀ name ∈ [StandardVariable.agentVersion, StandardVariable.agentComment],
      ¬ Piece.Captured [.captured nameSlot n] name := by
    simp only [Piece.captured_slot_iff, Piece.not_captured_nil]
    decide
  have hread : reading n [.slot nameSlot] =
      Resolution.ofMatch (.ofPieces [.captured nameSlot n]) := by
    rcases reading_cases n [.slot nameSlot] with ⟨-, hno⟩ | ⟨ps, hps, hread⟩
    · exact absurd (mem_splits_bare_iff.mpr ⟨hn, rfl⟩) (hno _)
    · obtain ⟨-, rfl⟩ := mem_splits_bare_iff.mp hps
      exact hread
  rw [Resolution.ofMatch, TemplateMatch.value_ofPieces hlast rfl,
    TemplateMatch.value_ofPieces_of_not_captured (hother _ (by simp)),
    TemplateMatch.value_ofPieces_of_not_captured (hother _ (by simp))] at hread
  rw [nodes_plain, List.findSome?_cons, reading_headed_bare hn, List.findSome?_cons,
    reading_headed_bare hn, List.findSome?_cons, reading_headed_bare hn, List.findSome?_cons, hread]
  exact ⟨_, rfl, rfl⟩

/-! ## All agents -/

theorem exists_plainAgent_of_headed {agent : Text} {tail : List Node} {ps : List Piece}
    (htail : tail ∈ [noted, enclosed, trailed]) (h : ps ∈ splits .whole (headed tail) agent) :
    ∃ n v r, PlainAgent agent n v r := by
  obtain ⟨n, v, qs, hn, hv, hqs, -, rfl⟩ := exists_head_of_mem_splits h
  rcases tailed_of_fits htail hqs with hend | ⟨r, hrest⟩
  · rw [hend, List.append_nil]
    exact ⟨n, some v, [], .versioned hn hv⟩
  · rw [hrest]
    exact ⟨n, some v, r, .followed r hn hv⟩

/-- Whatever the last four patterns read has one of the three forms. -/
theorem exists_plainAgent {agent : Text} {res : Resolution}
    (h : (plain.map nodes).findSome? (reading agent) = some res) :
    ∃ n v r, PlainAgent agent n v r := by
  obtain ⟨ns, hns, hread⟩ := List.exists_of_findSome?_eq_some h
  rcases reading_cases agent ns with ⟨hnone, -⟩ | ⟨ps, hps, -⟩
  · rw [hnone] at hread
    cases hread
  · rw [nodes_plain] at hns
    simp only [List.mem_cons, List.not_mem_nil, or_false] at hns
    rcases hns with rfl | rfl | rfl | rfl
    · exact exists_plainAgent_of_headed (by simp) hps
    · exact exists_plainAgent_of_headed (by simp) hps
    · exact exists_plainAgent_of_headed (by simp) hps
    · exact ⟨agent, none, [], .bare (mem_splits_bare_iff.mp hps).1⟩

/-- What is told of an agent with a product token: its name, its version, and its comment. -/
theorem exists_findSome?_plain {agent n r : Text} {v : Option Text} (h : PlainAgent agent n v r) :
    ∃ res, (plain.map nodes).findSome? (reading agent) = some res ∧ res.product.name = n ∧
      res.product.version = v ∧ ∀ c, res.product.comment = some c ↔ Annotates c r := by
  cases h with
  | bare hn =>
      obtain ⟨res, hres, hproduct⟩ := findSome?_plain_bare hn
      refine ⟨res, hres, ?_⟩
      rw [hproduct]
      exact ⟨rfl, rfl, fun c => iff_of_false (by rintro ⟨⟩) (not_annotates_nil c)⟩
  | versioned hn hv =>
      obtain ⟨res, hres, htold⟩ := findSome?_plain_headed hn hv (Or.inl rfl)
      rw [List.append_nil] at hres
      refine ⟨res, hres, htold.name, htold.version, ?_⟩
      intro c
      rw [htold.comment]
      refine iff_of_false ?_ (not_annotates_nil c)
      rintro ⟨-, -, s, hs, -⟩
      cases hs
  | followed r hn hv =>
      obtain ⟨res, hres, htold⟩ := findSome?_plain_headed hn hv (Or.inr ⟨r, rfl⟩)
      refine ⟨res, hres, htold.name, htold.version, ?_⟩
      intro c
      rw [htold.comment, annotates_iff_encloses]

end Builtin

end Catalog

/-- The scanner of products reads the same name and the same version. -/
theorem Product.readAll_of_plainAgent {agent n r : Text} {v : Option Text}
    (h : PlainAgent agent n v r) :
    ∃ first others, Product.readAll agent = first :: others ∧ first.name = n ∧
      first.version = v := by
  cases h with
  | bare hn => exact Product.readAll_of_name hn
  | versioned hn hv =>
      have hread := Product.readAll_of_version hn hv Text.endsToken_nil
      rw [List.append_nil] at hread
      exact hread
  | followed r hn hv =>
      exact Product.readAll_of_version hn hv (Text.endsToken_cons (by decide))

/-- **Agents that do not claim to be Mozilla.**  They are resolved exactly if they lead with a
product token; then name, version and comment are told, and the scanner of products reads the same
name and the same version first. -/
theorem Catalog.resolve_builtin_of_lead [RegexEngine] (agent : Text)
    (hagent : ¬ "Mozilla/".toList <+: agent) :
    ((∃ res, Catalog.builtin.resolve agent = some res) ↔ ∃ n v r, PlainAgent agent n v r) ∧
    ∀ n v r, PlainAgent agent n v r → ∀ res, Catalog.builtin.resolve agent = some res →
      res.product.name = n ∧ res.product.version = v ∧
      (∀ c, res.product.comment = some c ↔ Annotates c r) ∧
      ∃ first others, Product.readAll agent = first :: others ∧ first.name = n ∧
        first.version = v := by
  rw [Catalog.resolve_builtin_of_not_mozilla hagent]
  refine ⟨⟨?_, ?_⟩, ?_⟩
  · rintro ⟨res, hres⟩
    exact Catalog.Builtin.exists_plainAgent hres
  · rintro ⟨n, v, r, hplain⟩
    obtain ⟨res, hres, -⟩ := Catalog.Builtin.exists_findSome?_plain hplain
    exact ⟨res, hres⟩
  · intro n v r hplain res hres
    obtain ⟨res', hres', hname, hversion, hcomment⟩ :=
      Catalog.Builtin.exists_findSome?_plain hplain
    obtain rfl : res' = res := Option.some.inj (hres'.symm.trans hres)
    exact ⟨hname, hversion, hcomment, Product.readAll_of_plainAgent hplain⟩

attribute [local instance] Regex.engine

/-- A comment with parentheses of its own, and a product behind it. -/
theorem Catalog.resolve_builtin_curl :
    ¬ "Mozilla/".toList <+: "curl/8.5 (x86 (linux)) libcurl".toList ∧
    ∃ res, Catalog.builtin.resolve "curl/8.5 (x86 (linux)) libcurl".toList = some res ∧
      res.product = ⟨"curl".toList, some "8.5".toList, some "x86 (linux)".toList⟩ ∧
      ∃ first others,
        Product.readAll "curl/8.5 (x86 (linux)) libcurl".toList = first :: others ∧
          first.name = "curl".toList ∧ first.version = some "8.5".toList := by
  have hagent : ¬ "Mozilla/".toList <+: "curl/8.5 (x86 (linux)) libcurl".toList := by decide
  have hplain : PlainAgent "curl/8.5 (x86 (linux)) libcurl".toList "curl".toList
      (some "8.5".toList) "(x86 (linux)) libcurl".toList :=
    @PlainAgent.followed "curl".toList "8.5".toList _ (by decide) (by decide)
  have hprintable : ∀ x ∈ "x86 (linux)".toList, isControl x = true → x = '\t' := by
    simp [isControl]
  have hcomment : Annotates "x86 (linux)".toList "(x86 (linux)) libcurl".toList :=
    ⟨by decide, by decide, hprintable, Or.inr ⟨"libcurl".toList, by decide⟩⟩
  obtain ⟨hiff, htold⟩ :=
    Catalog.resolve_builtin_of_lead "curl/8.5 (x86 (linux)) libcurl".toList hagent
  obtain ⟨res, hres⟩ := hiff.mpr ⟨_, _, _, hplain⟩
  obtain ⟨hname, hversion, hannotates, hfirst⟩ := htold _ _ _ hplain res hres
  refine ⟨hagent, res, hres, ?_, hfirst⟩
  rw [← hname, ← hversion, ← (hannotates _).mpr hcomment]

end ContentNegotiation
