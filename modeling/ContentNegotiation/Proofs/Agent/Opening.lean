import ContentNegotiation.Proofs.Agent.Plain
import ContentNegotiation.Proofs.Text.Cutting

/-!
# The opening of a browser

A browser claims to be Mozilla, and tells in parentheses of its system and, in a remark, of what else
there is to say.  Behind the parentheses stand its engine and its product.  Most patterns of the
built-in catalog are written for such agents, with variables for anything between the literals, and
yet parentheses and semicolons leave them only one way to fit.

* `opening` — what stands before the engine, up to an open end.
* `openingNodes`, `webKitTail`, `geckoTail` — the patterns, cut where the agents are cut.
* `Introduces` — the system is an attribute, and the remark has no parentheses.

Principal results: `Introduces.mem_splits_webKit_iff` and `Introduces.mem_splits_gecko_iff` (up to
the engine, and for Gecko up to the end, the split is determined).
-/

namespace ContentNegotiation

/-- A text without parentheses. -/
structure Text.NoParens (t : Text) : Prop where
  opened : '(' ∉ t
  closed : ')' ∉ t

theorem Text.noParens_of_isToken {t : Text} (h : t.isToken = true) : t.NoParens :=
  ⟨not_mem_of_isToken h (by decide), not_mem_of_isToken h (by decide)⟩

theorem Text.NoParens.append {t u : Text} (ht : t.NoParens) (hu : u.NoParens) : (t ++ u).NoParens :=
  ⟨by simp [ht.opened, hu.opened], by simp [ht.closed, hu.closed]⟩

namespace Catalog

namespace Builtin

/-! ## The opening -/

/-- An opening with its system, and any text from the remark on. -/
def opening (f os u : Text) : Text :=
  mozilla ++ (f ++ ' ' :: '(' :: (os ++ ';' :: ' ' :: u))

def openingNodes (tail : List Node) : List Node :=
  .literal mozilla :: .slot dataSlot :: .literal [' ', '('] :: .slot osSlot ::
    .literal [';', ' '] :: tail

def openingPieces (f os : Text) : List Piece :=
  [.literal mozilla, .captured dataSlot f, .literal [' ', '('], .captured osSlot os,
    .literal [';', ' ']]

theorem fits_opening_iff [RegexEngine] {tail : List Node} {ps : List Piece} :
    Fits (openingNodes tail) ps ↔
      ∃ f os qs, osSlot.Captures os ∧ Fits tail qs ∧ ps = openingPieces f os ++ qs := by
  constructor
  · intro h
    obtain ⟨_, rfl, hdata⟩ := (Fits.literal_iff_of_not_blank (by decide)).mp h
    obtain ⟨f, _, rfl, -, hopen⟩ := Fits.slot_iff.mp hdata
    obtain ⟨_, rfl, hsystem⟩ := (Fits.literal_iff_of_not_blank (by decide)).mp hopen
    obtain ⟨os, _, rfl, hos, hsemicolon⟩ := Fits.slot_iff.mp hsystem
    obtain ⟨qs, rfl, htail⟩ := (Fits.literal_iff_of_not_blank (by decide)).mp hsemicolon
    exact ⟨f, os, qs, hos, htail, rfl⟩
  · rintro ⟨f, os, qs, hos, h, rfl⟩
    exact .literal (.captured (captures_data f) (.literal (.captured hos (.literal h))))

theorem covered_openingPieces (f os : Text) (qs : List Piece) :
    Piece.covered (openingPieces f os ++ qs) = opening f os (Piece.covered qs) := by
  simp [openingPieces, opening, Piece.text]

theorem opening_append (f os u t : Text) : opening f os u ++ t = opening f os (u ++ t) := by
  simp [opening]

/-! ## A product at the end -/

theorem fits_headed_nil_iff [RegexEngine] {ps : List Piece} :
    Fits (headed []) ps ↔ ∃ n v, n.isToken = true ∧ v.isToken = true ∧ ps = headPieces n v := by
  rw [fits_headed_iff]
  constructor
  · rintro ⟨n, v, qs, hn, hv, hend, rfl⟩
    obtain rfl := Fits.nil_iff.mp hend
    exact ⟨n, v, hn, hv, List.append_nil _⟩
  · rintro ⟨n, v, hn, hv, rfl⟩
    exact ⟨n, v, [], hn, hv, .nil, (List.append_nil _).symm⟩

/-- The blank before a name is not left out. -/
theorem fits_blank_headed_iff [RegexEngine] {tail : List Node} {ps : List Piece} :
    Fits (.literal [' '] :: headed tail) ps ↔
      ∃ qs, Fits (headed tail) qs ∧ ps = .literal [' '] :: qs := by
  rw [Fits.literal_iff, or_iff_left]
  · exact exists_congr fun qs => and_comm
  · rintro ⟨s, beyond, qs, hafter, -, -, hfree, -⟩
    obtain ⟨⟨rfl⟩, -⟩ := List.cons.inj hafter
    cases hfree

/-- A name and a version at the end are found in only one way. -/
theorem append_product_inj {a b n v n' v' : Text} (hn : n.isToken = true) (hv : v.isToken = true)
    (hn' : n'.isToken = true) (hv' : v'.isToken = true)
    (h : a ++ ' ' :: (n ++ '/' :: v) = b ++ ' ' :: (n' ++ '/' :: v')) :
    a = b ∧ n = n' ∧ v = v' := by
  have hblank : ∀ {n v : Text}, n.isToken = true → v.isToken = true → ' ' ∉ n ++ '/' :: v := by
    intro n v hn hv
    simp [Text.not_mem_of_isToken hn (show isTokenChar ' ' = false by decide),
      Text.not_mem_of_isToken hv (show isTokenChar ' ' = false by decide)]
  obtain ⟨hbefore, hproduct⟩ := Text.append_cons_inj_last (hblank hn hv) (hblank hn' hv') h
  exact ⟨hbefore, Text.append_cons_inj_first (Text.not_mem_of_isToken hn (by decide))
    (Text.not_mem_of_isToken hn' (by decide)) hproduct⟩

/-! ## WebKit and Blink -/

def appleWebKit : Text := " AppleWebKit/".toList

def khtml : Text := "KHTML, like Gecko".toList

/-- The engine of WebKit and Blink, up to its closing parenthesis. -/
def engine (w : Text) : Text :=
  appleWebKit ++ (w ++ ' ' :: '(' :: khtml)

/-- An agent built on WebKit or Blink, and any text behind the parentheses of the engine. -/
def onWebKit (f os m w t : Text) : Text :=
  opening f os (m ++ ')' :: (engine w ++ ')' :: t))

theorem close_not_mem_engine {w : Text} (hw : w.isToken = true) : ')' ∉ engine w := by
  have happle : ')' ∉ appleWebKit := by decide
  have hkhtml : ')' ∉ khtml := by decide
  simp [engine, happle, hkhtml, (Text.noParens_of_isToken hw).closed]

/-- A remark and the engine, and in one literal with it the text that follows. -/
def webKitTail (x : Text) (tail : List Node) : List Node :=
  .slot commentSlot :: .literal (')' :: appleWebKit) :: .slot dataSlot ::
    .literal (' ' :: '(' :: (khtml ++ ')' :: x)) :: tail

def webKitPieces (m w x : Text) : List Piece :=
  [.captured commentSlot m, .literal (')' :: appleWebKit), .captured dataSlot w,
    .literal (' ' :: '(' :: (khtml ++ ')' :: x))]

theorem fits_webKit_iff [RegexEngine] {x : Text} {tail : List Node} {ps : List Piece} :
    Fits (webKitTail x tail) ps ↔
      ∃ m w qs, commentSlot.Captures m ∧ Fits tail qs ∧ ps = webKitPieces m w x ++ qs := by
  constructor
  · intro h
    obtain ⟨m, _, rfl, hm, hengine⟩ := Fits.slot_iff.mp h
    obtain ⟨_, rfl, hdata⟩ := (Fits.literal_iff_of_not_blank rfl).mp hengine
    obtain ⟨w, _, rfl, -, hkhtml⟩ := Fits.slot_iff.mp hdata
    obtain ⟨qs, rfl, htail⟩ := (Fits.literal_iff_of_not_blank rfl).mp hkhtml
    exact ⟨m, w, qs, hm, htail, rfl⟩
  · rintro ⟨m, w, qs, hm, h, rfl⟩
    exact .captured hm (.literal (.captured (captures_data w) (.literal h)))

theorem covered_webKitPieces (m w x : Text) (qs : List Piece) :
    Piece.covered (webKitPieces m w x ++ qs) =
      m ++ ')' :: (engine w ++ ')' :: (x ++ Piece.covered qs)) := by
  simp [webKitPieces, engine, Piece.text]

/-! ## Gecko -/

def revision : Text := "; rv:".toList

def geckoEngine : Text := " Gecko/".toList

/-- An agent built on Gecko, and any text behind the engine. -/
def onGecko (f os m r d t : Text) : Text :=
  opening f os (m ++ (revision ++ r) ++ ')' :: (geckoEngine ++ (d ++ t)))

/-- A remark, the revision and the engine, with a product at the end. -/
def geckoTail : List Node :=
  .slot commentSlot :: .literal revision :: .slot attributeSlot :: .literal (')' :: geckoEngine) ::
    .slot dataSlot :: .literal [' '] :: headed []

def geckoPieces (m r d : Text) : List Piece :=
  [.captured commentSlot m, .literal revision, .captured attributeSlot r,
    .literal (')' :: geckoEngine), .captured dataSlot d, .literal [' ']]

theorem fits_gecko_iff [RegexEngine] {ps : List Piece} :
    Fits geckoTail ps ↔ ∃ m r d n v, commentSlot.Captures m ∧ attributeSlot.Captures r ∧
      n.isToken = true ∧ v.isToken = true ∧ ps = geckoPieces m r d ++ headPieces n v := by
  constructor
  · intro h
    obtain ⟨m, _, rfl, hm, hrevision⟩ := Fits.slot_iff.mp h
    obtain ⟨_, rfl, hattribute⟩ := (Fits.literal_iff_of_not_blank (by decide)).mp hrevision
    obtain ⟨r, _, rfl, hr, hengine⟩ := Fits.slot_iff.mp hattribute
    obtain ⟨_, rfl, hdata⟩ := (Fits.literal_iff_of_not_blank (by decide)).mp hengine
    obtain ⟨d, _, rfl, -, hblank⟩ := Fits.slot_iff.mp hdata
    obtain ⟨_, hproduct, rfl⟩ := fits_blank_headed_iff.mp hblank
    obtain ⟨n, v, hn, hv, rfl⟩ := fits_headed_nil_iff.mp hproduct
    exact ⟨m, r, d, n, v, hm, hr, hn, hv, rfl⟩
  · rintro ⟨m, r, d, n, v, hm, hr, hn, hv, rfl⟩
    exact .captured hm (.literal (.captured hr (.literal (.captured (captures_data d)
      (fits_blank_headed_iff.mpr ⟨_, fits_headed_nil_iff.mpr ⟨n, v, hn, hv, rfl⟩, rfl⟩)))))

theorem covered_geckoPieces (m r d n v : Text) :
    Piece.covered (geckoPieces m r d ++ headPieces n v) =
      m ++ (revision ++ r) ++ ')' :: (geckoEngine ++ (d ++ ' ' :: (n ++ '/' :: v))) := by
  simp [geckoPieces, headPieces, Piece.text]

/-! ## Splits -/

variable [RegexEngine]

/-- An attribute holds none of the characters that close or separate it. -/
theorem not_mem_of_captures_attribute {name a : Text} {x : Char}
    (h : Slot.Captures ⟨name, .mandatory .commentAttribute⟩ a) (hx : x ∈ ['(', ')', ';']) :
    x ∉ a := by
  intro hmem
  have hne := (captures_attribute_iff.mp h).2 x hmem
  simp only [List.mem_cons, List.not_mem_nil, or_false] at hx
  tauto

theorem noParens_revised {m r : Text} (hm : m.NoParens) (hr : attributeSlot.Captures r) :
    (m ++ (revision ++ r)).NoParens :=
  hm.append (.append ⟨by decide, by decide⟩
    ⟨not_mem_of_captures_attribute hr (by simp), not_mem_of_captures_attribute hr (by simp)⟩)

/-- The remark may hold semicolons, and even revisions: the last one counts. -/
theorem append_revision_inj {m r m' r' : Text} (hr : attributeSlot.Captures r)
    (hr' : attributeSlot.Captures r') (h : m ++ (revision ++ r) = m' ++ (revision ++ r')) :
    m = m' ∧ r = r' := by
  have hlast : ∀ {r : Text}, attributeSlot.Captures r → ';' ∉ " rv:".toList ++ r := by
    intro r hr
    simp [not_mem_of_captures_attribute hr (x := ';') (by simp)]
  obtain ⟨rfl, hbehind⟩ := Text.append_cons_inj_last (hlast hr) (hlast hr') h
  exact ⟨rfl, List.append_cancel_left hbehind⟩

/-- What stands before the engine: a token, the system, and a remark without parentheses. -/
structure Introduces (f os m : Text) : Prop where
  token : f.isToken = true
  system : osSlot.Captures os
  remark : commentSlot.Captures m
  noParens : m.NoParens

namespace Introduces

variable {f os m : Text}

theorem close_not_mem_opening (h : Introduces f os m) {u : Text} (hu : ')' ∉ u) :
    ')' ∉ opening f os u := by
  have hmozilla : ')' ∉ mozilla := by decide
  have hos : ')' ∉ os := not_mem_of_captures_attribute h.system (by simp)
  simp [opening, hmozilla, (Text.noParens_of_isToken h.token).closed, hos, hu]

/-- **The opening is found in only one way**: its parenthesis is the only one, and the system ends at
the first semicolon. -/
theorem opening_inj (h : Introduces f os m) {u f' os' u' : Text} (hu : '(' ∉ u)
    (hos' : osSlot.Captures os') (heq : opening f os u = opening f' os' u') :
    f = f' ∧ os = os' ∧ u = u' := by
  have hmozilla : '(' ∉ mozilla := by decide
  have hos : '(' ∉ os := not_mem_of_captures_attribute h.system (by simp)
  have hsemicolon : ';' ∉ os := not_mem_of_captures_attribute h.system (by simp)
  have hsemicolon' : ';' ∉ os' := not_mem_of_captures_attribute hos' (by simp)
  have hparen : (mozilla ++ (f ++ [' '])) ++ '(' :: (os ++ ';' :: ' ' :: u) =
      (mozilla ++ (f' ++ [' '])) ++ '(' :: (os' ++ ';' :: ' ' :: u') := by
    simpa [opening] using heq
  obtain ⟨hbefore, -, hbehind⟩ := (List.append_cons_inj_of_notMem
    (by simp [hmozilla, (Text.noParens_of_isToken h.token).opened]) (by simp [hos, hu])).mp hparen
  obtain ⟨rfl, hremark⟩ := Text.append_cons_inj_first hsemicolon hsemicolon' hbehind
  exact ⟨List.append_cancel_right (List.append_cancel_left hbefore), rfl, (List.cons.inj hremark).2⟩

variable {ps : List Piece}

/-- **Up to the engine the split is determined**, if no parenthesis closes behind it. -/
theorem mem_splits_webKit_iff (h : Introduces f os m) {w t x : Text} {tail : List Node}
    (hw : w.isToken = true) (ht : ')' ∉ t) :
    ps ∈ splits .whole (openingNodes (webKitTail x tail)) (onWebKit f os m w t) ↔
      ∃ qs, Fits tail qs ∧ x ++ Piece.covered qs = t ∧
        ps = openingPieces f os ++ (webKitPieces m w x ++ qs) := by
  constructor
  · intro hps
    obtain ⟨hfits, hcovers⟩ := mem_splits_iff.mp hps
    obtain ⟨f', os', _, hos', hwebKit, rfl⟩ := fits_opening_iff.mp hfits
    obtain ⟨m', w', qs, -, hqs, rfl⟩ := fits_webKit_iff.mp hwebKit
    have heq : opening f os m ++ ')' :: (engine w ++ ')' :: t) =
        opening f' os' m' ++ ')' :: (engine w' ++ ')' :: (x ++ Piece.covered qs)) := by
      rw [opening_append, opening_append, ← covered_webKitPieces, ← covered_openingPieces]
      exact hcovers.symm
    obtain ⟨hleft, hmiddle, hright⟩ := Text.append_cons_inj_twice
      (h.close_not_mem_opening h.noParens.closed) (close_not_mem_engine hw) ht heq
    obtain ⟨rfl, rfl, rfl⟩ := h.opening_inj h.noParens.opened hos' hleft
    obtain rfl : w = w' := List.append_cancel_right (List.append_cancel_left hmiddle)
    exact ⟨qs, hqs, hright.symm, rfl⟩
  · rintro ⟨qs, hqs, rfl, rfl⟩
    rw [mem_splits_iff]
    refine ⟨fits_opening_iff.mpr ⟨f, os, _, h.system,
      fits_webKit_iff.mpr ⟨m, w, qs, h.remark, hqs, rfl⟩, rfl⟩, ?_⟩
    show Piece.covered _ = _
    rw [covered_openingPieces, covered_webKitPieces, onWebKit]

/-- **Where the remark ends with a revision there is one split.** -/
theorem mem_splits_gecko_iff (h : Introduces f os m) {r d n v : Text} (hr : attributeSlot.Captures r)
    (hd : d.isToken = true) (hn : n.isToken = true) (hv : v.isToken = true) :
    ps ∈ splits .whole (openingNodes geckoTail) (onGecko f os m r d (' ' :: (n ++ '/' :: v))) ↔
      ps = openingPieces f os ++ (geckoPieces m r d ++ headPieces n v) := by
  have hremark := noParens_revised h.noParens hr
  have hbehind : ')' ∉ geckoEngine ++ (d ++ ' ' :: (n ++ '/' :: v)) := by
    have hgecko : ')' ∉ geckoEngine := by decide
    simp [hgecko, (Text.noParens_of_isToken hd).closed, (Text.noParens_of_isToken hn).closed,
      (Text.noParens_of_isToken hv).closed]
  constructor
  · intro hps
    obtain ⟨hfits, hcovers⟩ := mem_splits_iff.mp hps
    obtain ⟨f', os', _, hos', hgecko, rfl⟩ := fits_opening_iff.mp hfits
    obtain ⟨m', r', d', n', v', -, hr', hn', hv', rfl⟩ := fits_gecko_iff.mp hgecko
    have heq : opening f os (m ++ (revision ++ r)) ++ ')' ::
          (geckoEngine ++ (d ++ ' ' :: (n ++ '/' :: v))) =
        opening f' os' (m' ++ (revision ++ r')) ++ ')' ::
          (geckoEngine ++ (d' ++ ' ' :: (n' ++ '/' :: v'))) := by
      rw [opening_append, opening_append, ← covered_geckoPieces m', ← covered_openingPieces]
      exact hcovers.symm
    obtain ⟨hleft, -, hright⟩ := (List.append_cons_inj_of_notMem
      (h.close_not_mem_opening hremark.closed) hbehind).mp heq
    obtain ⟨rfl, rfl, hrevised⟩ := h.opening_inj hremark.opened hos' hleft
    obtain ⟨rfl, rfl⟩ := append_revision_inj hr hr' hrevised
    obtain ⟨rfl, rfl, rfl⟩ := append_product_inj hn hv hn' hv' (List.append_cancel_left hright)
    rfl
  · rintro rfl
    rw [mem_splits_iff]
    refine ⟨fits_opening_iff.mpr ⟨f, os, _, h.system,
      fits_gecko_iff.mpr ⟨m, r, d, n, v, h.remark, hr, hn, hv, rfl⟩, rfl⟩, ?_⟩
    show Piece.covered _ = _
    rw [covered_openingPieces, covered_geckoPieces, onGecko]

end Introduces

end Builtin

end Catalog

end ContentNegotiation
