import Mathlib.Data.Bool.AllAny
import ContentNegotiation.Proofs.Agent.Opening
import ContentNegotiation.Regex.Parser

/-!
# Browsers

What the built-in catalog tells of browsers built on Blink and on Gecko: their system, their product
and their remark.  Three kinds of patterns come before the one that is to decide, and none of them
fits: those for compatible agents end with a parenthesis, those for Gecko name its engine, and those
for WebKit put a version or a further product where there is none.

* `chromeAgent`, `geckoAgent` — how such browsers name themselves.
* `Resolution.Identifies` — system, product and remark are told.
* `Builtin.reading_derived_eq_none`, `Builtin.reading_version_eq_none` — what does not fit.

Principal result: `Catalog.resolve_builtin_browser`.
-/

namespace ContentNegotiation

/-! ## How browsers name themselves -/

/-- A browser built on Blink. -/
def chromeAgent (f os m w c s : Text) : Text :=
  "Mozilla/".toList ++ f ++ " (".toList ++ os ++ "; ".toList ++ m ++ ") AppleWebKit/".toList ++ w ++
    " (KHTML, like Gecko) Chrome/".toList ++ c ++ " Safari/".toList ++ s

/-- A browser built on Gecko, up to its product. -/
def geckoAgent (f os m r d : Text) : Text :=
  "Mozilla/".toList ++ f ++ " (".toList ++ os ++ "; ".toList ++ m ++ "; rv:".toList ++ r ++
    ") Gecko/".toList ++ d

/-- What is told of a browser. -/
structure Resolution.Identifies (r : Resolution) (os n v m : Text) : Prop where
  system : r.captured StandardVariable.agentOs = some os
  product : r.product = ⟨n, some v, some m⟩

namespace Catalog

namespace Builtin

/-! ## What stands behind the engine -/

def chrome : Text := " Chrome/".toList

def safari : Text := " Safari/".toList

def versionLead : Text := " Version/".toList

/-- What a browser built on Blink claims to be, and what is behind it. -/
def claim (c s t : Text) : Text :=
  chrome ++ (c ++ (safari ++ (s ++ t)))

theorem close_not_mem_claim {c s t : Text} (hc : c.isToken = true) (hs : s.isToken = true)
    (ht : ')' ∉ t) : ')' ∉ claim c s t := by
  have hchrome : ')' ∉ chrome := by decide
  have hsafari : ')' ∉ safari := by decide
  simp [claim, hchrome, hsafari, (Text.noParens_of_isToken hc).closed,
    (Text.noParens_of_isToken hs).closed, ht]

theorem close_not_mem_product {n v : Text} (hn : n.isToken = true) (hv : v.isToken = true) :
    ')' ∉ ' ' :: (n ++ '/' :: v) := by
  simp [(Text.noParens_of_isToken hn).closed, (Text.noParens_of_isToken hv).closed]

/-- A product of its own at the end, behind what claims to be Safari. -/
def derivedTail : List Node :=
  .slot dataSlot :: .literal safari :: .slot dataSlot :: .literal [' '] :: headed []

def derivedPieces (c s : Text) : List Piece :=
  [.captured dataSlot c, .literal safari, .captured dataSlot s, .literal [' ']]

theorem fits_derived_iff [RegexEngine] {ps : List Piece} :
    Fits derivedTail ps ↔ ∃ c s n v, n.isToken = true ∧ v.isToken = true ∧
      ps = derivedPieces c s ++ headPieces n v := by
  constructor
  · intro h
    obtain ⟨c, _, rfl, -, hsafari⟩ := Fits.slot_iff.mp h
    obtain ⟨_, rfl, hdata⟩ := (Fits.literal_iff_of_not_blank (by decide)).mp hsafari
    obtain ⟨s, _, rfl, -, hblank⟩ := Fits.slot_iff.mp hdata
    obtain ⟨_, hproduct, rfl⟩ := fits_blank_headed_iff.mp hblank
    obtain ⟨n, v, hn, hv, rfl⟩ := fits_headed_nil_iff.mp hproduct
    exact ⟨c, s, n, v, hn, hv, rfl⟩
  · rintro ⟨c, s, n, v, hn, hv, rfl⟩
    exact .captured (captures_data c) (.literal (.captured (captures_data s)
      (fits_blank_headed_iff.mpr ⟨_, fits_headed_nil_iff.mpr ⟨n, v, hn, hv, rfl⟩, rfl⟩)))

/-- The product in front of what claims to be Safari. -/
def safariTail : List Node :=
  headed [.literal safari, .slot dataSlot]

theorem fits_safari_iff [RegexEngine] {ps : List Piece} :
    Fits safariTail ps ↔ ∃ n v s, n.isToken = true ∧ v.isToken = true ∧
      ps = headPieces n v ++ [.literal safari, .captured dataSlot s] := by
  rw [safariTail, fits_headed_iff]
  constructor
  · rintro ⟨n, v, qs, hn, hv, h, rfl⟩
    obtain ⟨_, rfl, hdata⟩ := (Fits.literal_iff_of_not_blank (by decide)).mp h
    obtain ⟨s, _, rfl, -, hend⟩ := Fits.slot_iff.mp hdata
    obtain rfl := Fits.nil_iff.mp hend
    exact ⟨n, v, s, hn, hv, rfl⟩
  · rintro ⟨n, v, s, hn, hv, rfl⟩
    exact ⟨n, v, _, hn, hv, .literal (.captured (captures_data s) .nil), rfl⟩

theorem covered_derivedPieces (c s n v : Text) :
    Piece.covered (derivedPieces c s ++ headPieces n v) =
      c ++ (safari ++ (s ++ ' ' :: (n ++ '/' :: v))) := by
  simp [derivedPieces, headPieces, Piece.text]

/-! ## The patterns for browsers -/

theorem head_nodes_gecko : (gecko.map nodes).head? = some (openingNodes geckoTail) := by
  decide +kernel

theorem nodes_webKit : webKit.map nodes =
    [openingNodes (webKitTail chrome derivedTail),
      openingNodes (webKitTail versionLead [.slot versionSlot, .literal " Mobile/".toList,
        .slot dataSlot, .literal [' '], .slot nameSlot, .literal ['/'], .slot dataSlot]),
      openingNodes (webKitTail versionLead [.slot versionSlot, .literal [' '], .slot nameSlot,
        .literal ['/'], .slot dataSlot]),
      openingNodes (webKitTail [' '] safariTail),
      openingNodes (webKitTail [' ']
        (headed [.literal " Mobile Safari/".toList, .slot dataSlot]))] := by
  decide +kernel

/-! ## Readings -/

section Identified

open StandardVariable

/-- The names from which the system and the product are told. -/
def identifying : List Text := [agentName, agentVersion, agentComment, agentOs]

/-- The system stands in the opening, the remark behind it, and name and version behind both. -/
theorem exists_identified {f os m n v : Text} {between after : List Piece} (hm : m ≠ [])
    (hv : v.isToken = true) (hremark : Piece.LastCapture between agentComment commentSlot m)
    (hbetween : ¬ Piece.Captured between agentOs)
    (hafter : ∀ name ∈ identifying, ¬ Piece.Captured after name) :
    ∃ res, Resolution.ofMatch
        (.ofPieces (openingPieces f os ++ (between ++ (headPieces n v ++ after)))) = some res ∧
      res.Identifies os n v m := by
  have hhead : ∀ name ∈ [agentComment, agentOs], name ∈ identifying →
      ¬ Piece.Captured (headPieces n v ++ after) name := by
    intro name hname hidentifying
    rw [Piece.captured_append_iff, not_or]
    exact ⟨not_captured_headPieces n v hname, hafter name hidentifying⟩
  have hsystem : Piece.LastCapture (openingPieces f os) agentOs osSlot os :=
    ⟨[.literal mozilla, .captured dataSlot f, .literal [' ', '(']], [.literal [';', ' ']],
      rfl, rfl, by simp⟩
  have hbehind : ¬ Piece.Captured (between ++ (headPieces n v ++ after)) agentOs := by
    rw [Piece.captured_append_iff, not_or]
    exact ⟨hbetween, hhead _ (by simp) (by simp [identifying])⟩
  have hname := (lastCapture_name n v).append (hafter _ (by simp [identifying]))
  have hversion := (lastCapture_version n v).append (hafter _ (by simp [identifying]))
  have hcomment := hremark.append (hhead _ (by simp) (by simp [identifying]))
  unfold Resolution.ofMatch
  rw [TemplateMatch.value_ofPieces ((hname.prepend between).prepend _) rfl,
    TemplateMatch.value_ofPieces ((hversion.prepend between).prepend _) rfl,
    TemplateMatch.value_ofPieces (hcomment.prepend _) rfl]
  refine ⟨_, rfl, TemplateMatch.value_ofPieces (hsystem.append hbehind) rfl, ?_⟩
  show Product.of n (some v) (some m) = _
  rw [Product.of, Product.unlessEmpty_some (Text.isToken_iff.mp hv).1, Product.unlessEmpty_some hm]

theorem lastCapture_webKitPieces (m w x : Text) :
    Piece.LastCapture (webKitPieces m w x) agentComment commentSlot m := by
  refine ⟨[], _, rfl, rfl, ?_⟩
  simp only [Piece.captured_literal_iff, Piece.captured_slot_iff, Piece.not_captured_nil, or_false]
  decide

theorem not_captured_webKitPieces (m w x : Text) :
    ¬ Piece.Captured (webKitPieces m w x) agentOs := by
  simp only [webKitPieces, Piece.captured_literal_iff, Piece.captured_slot_iff,
    Piece.not_captured_nil, or_false]
  decide

theorem not_captured_derivedPieces (c s : Text) {name : Text} (h : name ∈ identifying) :
    ¬ Piece.Captured (derivedPieces c s) name := by
  simp only [derivedPieces, Piece.captured_literal_iff, Piece.captured_slot_iff,
    Piece.not_captured_nil, or_false]
  revert name
  decide

end Identified

namespace Introduces

variable [RegexEngine] {f os m w c s n v t : Text}

/-- A product of its own at the end counts. -/
theorem exists_reading_derived (h : Introduces f os m) (hm : m ≠ []) (hw : w.isToken = true)
    (hc : c.isToken = true) (hs : s.isToken = true) (hn : n.isToken = true) (hv : v.isToken = true) :
    ∃ res, reading (onWebKit f os m w (claim c s (' ' :: (n ++ '/' :: v))))
        (openingNodes (webKitTail chrome derivedTail)) = some res ∧ res.Identifies os n v m := by
  have hclosed := close_not_mem_claim hc hs (close_not_mem_product hn hv)
  refine exists_reading ⟨_, (h.mem_splits_webKit_iff hw hclosed).mpr
    ⟨_, fits_derived_iff.mpr ⟨c, s, n, v, hn, hv, rfl⟩, by rw [covered_derivedPieces, claim], rfl⟩⟩ ?_
  intro ps hps
  obtain ⟨qs, hqs, heq, rfl⟩ := (h.mem_splits_webKit_iff hw hclosed).mp hps
  obtain ⟨c', s', n', v', hn', hv', rfl⟩ := fits_derived_iff.mp hqs
  rw [covered_derivedPieces] at heq
  have hproduct : (c' ++ (safari ++ s')) ++ ' ' :: (n' ++ '/' :: v') =
      (c ++ (safari ++ s)) ++ ' ' :: (n ++ '/' :: v) := by
    simpa using List.append_cancel_left heq
  obtain ⟨-, rfl, rfl⟩ := append_product_inj hn' hv' hn hv hproduct
  have hpieces : openingPieces f os ++ (webKitPieces m w chrome ++
      (derivedPieces c' s' ++ headPieces n' v')) = openingPieces f os ++
        ((webKitPieces m w chrome ++ derivedPieces c' s') ++ (headPieces n' v' ++ [])) := by
    simp
  rw [hpieces]
  refine exists_identified hm hv ((lastCapture_webKitPieces m w chrome).append
    (not_captured_derivedPieces c' s' (by simp [identifying]))) ?_ fun _ _ => Piece.not_captured_nil
  rw [Piece.captured_append_iff, not_or]
  exact ⟨not_captured_webKitPieces m w chrome,
    not_captured_derivedPieces c' s' (by simp [identifying])⟩

/-- Without a product behind it there are too few blanks. -/
theorem reading_derived_eq_none (h : Introduces f os m) (hw : w.isToken = true)
    (hc : c.isToken = true) (hs : s.isToken = true) :
    reading (onWebKit f os m w (claim c s []))
      (openingNodes (webKitTail chrome derivedTail)) = none := by
  refine reading_eq_none fun ps hps => ?_
  obtain ⟨qs, hqs, heq, -⟩ :=
    (h.mem_splits_webKit_iff hw (close_not_mem_claim hc hs List.not_mem_nil)).mp hps
  obtain ⟨c', s', n', v', hn', hv', rfl⟩ := fits_derived_iff.mp hqs
  rw [covered_derivedPieces] at heq
  have hproduct : (c' ++ (safari ++ s')) ++ ' ' :: (n' ++ '/' :: v') =
      c ++ ' ' :: ("Safari".toList ++ '/' :: s) := by
    have hsafari : safari ++ s = ' ' :: ("Safari".toList ++ '/' :: s) := rfl
    rw [← hsafari, List.append_assoc, List.append_assoc, List.append_cancel_left heq, List.append_nil]
  obtain ⟨rfl, -, -⟩ := append_product_inj hn' hv' (by decide) hs hproduct
  have hblank : ' ' ∈ safari := by decide
  exact Text.not_mem_of_isToken hc (by decide)
    (List.mem_append_right c' (List.mem_append_left s' hblank))

/-- No browser that claims to be Chrome leads with its version. -/
theorem reading_version_eq_none (h : Introduces f os m) (hw : w.isToken = true)
    (ht : ')' ∉ claim c s t) (tail : List Node) :
    reading (onWebKit f os m w (claim c s t))
      (openingNodes (webKitTail versionLead tail)) = none := by
  refine reading_eq_none fun ps hps => ?_
  obtain ⟨qs, -, heq, -⟩ := (h.mem_splits_webKit_iff hw ht).mp hps
  have hsecond := congrArg (fun t : Text => t[1]?) heq
  cases hsecond

/-- Chrome is what it claims to be. -/
theorem exists_reading_safari (h : Introduces f os m) (hm : m ≠ []) (hw : w.isToken = true)
    (hc : c.isToken = true) (hs : s.isToken = true) :
    ∃ res, reading (onWebKit f os m w (claim c s []))
        (openingNodes (webKitTail [' '] safariTail)) = some res ∧
      res.Identifies os "Chrome".toList c m := by
  have hclosed := close_not_mem_claim hc hs List.not_mem_nil
  have hclaim : claim c s [] =
      ' ' :: ("Chrome".toList ++ '/' :: (c ++ (safari ++ s))) := by
    rw [claim, List.append_nil]
    rfl
  refine exists_reading ⟨_, (h.mem_splits_webKit_iff hw hclosed).mpr
    ⟨_, fits_safari_iff.mpr ⟨"Chrome".toList, c, s, by decide, hc, rfl⟩, ?_, rfl⟩⟩ ?_
  · rw [covered_headPieces, hclaim]
    simp [Piece.text]
  intro ps hps
  obtain ⟨qs, hqs, heq, rfl⟩ := (h.mem_splits_webKit_iff hw hclosed).mp hps
  obtain ⟨n, v, d, hn, hv, rfl⟩ := fits_safari_iff.mp hqs
  rw [covered_headPieces, hclaim] at heq
  have hsafari : ∀ d : Text, Text.EndsToken (safari ++ d) := fun d => Text.endsToken_cons (by decide)
  obtain ⟨rfl, hrest⟩ := Text.token_append_inj hn (by decide) (Text.endsToken_slash _)
    (Text.endsToken_slash _) (List.cons.inj heq).2
  obtain ⟨rfl, -⟩ := Text.token_append_inj hv hc (hsafari _) (hsafari s) (List.cons.inj hrest).2
  refine exists_identified hm hv (lastCapture_webKitPieces m w [' '])
    (not_captured_webKitPieces m w [' ']) fun name hname => ?_
  simp only [Piece.captured_literal_iff, Piece.captured_slot_iff, Piece.not_captured_nil, or_false]
  revert name
  decide

/-- The product at the end counts, and the revision does not belong to the remark. -/
theorem exists_reading_gecko (h : Introduces f os m) (hm : m ≠ []) {r d : Text}
    (hr : attributeSlot.Captures r) (hd : d.isToken = true) (hn : n.isToken = true)
    (hv : v.isToken = true) :
    ∃ res, reading (onGecko f os m r d (' ' :: (n ++ '/' :: v))) (openingNodes geckoTail) = some res ∧
      res.Identifies os n v m := by
  refine exists_reading ⟨_, (h.mem_splits_gecko_iff hr hd hn hv).mpr rfl⟩ fun ps hps => ?_
  rw [(h.mem_splits_gecko_iff hr hd hn hv).mp hps, ← List.append_nil (headPieces n v)]
  refine exists_identified hm hv ⟨[], _, rfl, rfl, ?_⟩ ?_ fun _ _ => Piece.not_captured_nil
  · simp only [Piece.captured_literal_iff, Piece.captured_slot_iff, Piece.not_captured_nil, or_false]
    decide
  · simp only [geckoPieces, Piece.captured_literal_iff, Piece.captured_slot_iff,
      Piece.not_captured_nil, or_false]
    decide

end Introduces

/-! ## Patterns that do not fit -/

theorem getLast_nodes_compatible :
    ∀ p ∈ compatible, (nodes p).getLast? = some (.literal [')']) := by
  decide +kernel

/-- What does not end with a parenthesis is not called compatible. -/
theorem findSome?_compatible_eq_none [RegexEngine] {agent : Text} (h : agent.getLast? ≠ some ')') :
    (compatible.map nodes).findSome? (reading agent) = none := by
  rw [List.findSome?_eq_none_iff, List.forall_mem_map]
  intro p hp
  refine reading_eq_none fun ps hps => h ?_
  obtain ⟨hfits, hcovers⟩ := mem_splits_iff.mp hps
  obtain ⟨u, hu⟩ := hfits.literal_isSuffix (getLast_nodes_compatible p hp)
  obtain rfl : u ++ [')'] = agent := hu.trans hcovers
  exact List.getLast?_concat

theorem exists_getLast?_token {v : Text} (hv : v.isToken = true) :
    ∃ x, v.getLast? = some x ∧ x ≠ ')' := by
  have hlast := List.getLast?_eq_some_getLast (Text.isToken_iff.mp hv).1
  refine ⟨_, hlast, ?_⟩
  intro hclose
  rw [hclose] at hlast
  exact Text.not_mem_of_isToken hv (by decide) (List.mem_of_getLast? hlast)

theorem literal_mem_nodes_gecko : ∀ p ∈ gecko, .literal (')' :: geckoEngine) ∈ nodes p := by
  decide +kernel

/-- What does not name the engine is not built on Gecko. -/
theorem findSome?_gecko_eq_none [RegexEngine] {agent : Text}
    (h : ¬ (')' :: geckoEngine) <:+: agent) :
    (gecko.map nodes).findSome? (reading agent) = none := by
  rw [List.findSome?_eq_none_iff, List.forall_mem_map]
  intro p hp
  refine reading_eq_none fun ps hps => h ?_
  obtain ⟨hfits, hcovers⟩ := mem_splits_iff.mp hps
  obtain rfl : Piece.covered ps = agent := hcovers
  exact Piece.text_isInfix_covered (hfits.literal_mem (by decide) (literal_mem_nodes_gecko p hp))

/-- Behind neither of the two closing parentheses stands the engine. -/
theorem Introduces.not_gecko [RegexEngine] {f os m w c s t : Text} (h : Introduces f os m)
    (hw : w.isToken = true) (ht : ')' ∉ claim c s t) :
    ¬ (')' :: geckoEngine) <:+: onWebKit f os m w (claim c s t) := by
  intro hinfix
  rw [onWebKit, ← opening_append] at hinfix
  rcases Text.prefix_or_infix_of_cons_infix (h.close_not_mem_opening h.noParens.closed) hinfix
    with ⟨u, hu⟩ | hinfix
  · have hsecond := congrArg (fun t : Text => t[1]?) hu
    cases hsecond
  · rcases Text.prefix_or_infix_of_cons_infix (close_not_mem_engine hw) hinfix with ⟨u, hu⟩ | hinfix
    · have hsecond := congrArg (fun t : Text => t[1]?) hu
      cases hsecond
    · exact Text.not_cons_infix ht hinfix

/-! ## Resolving browsers -/

theorem opening_eq (f os u : Text) :
    "Mozilla/".toList ++ f ++ " (".toList ++ os ++ "; ".toList ++ u = opening f os u := by
  have hopen : " (".toList = [' ', '('] := by decide
  have hsystem : "; ".toList = [';', ' '] := by decide
  unfold opening mozilla
  rw [hopen, hsystem]
  simp only [List.append_assoc, List.cons_append, List.nil_append]

theorem chromeAgent_append (f os m w c s t : Text) :
    chromeAgent f os m w c s ++ t = onWebKit f os m w (claim c s t) := by
  have hengine : ") AppleWebKit/".toList = ')' :: appleWebKit := by decide
  have hchrome : " (KHTML, like Gecko) Chrome/".toList = ' ' :: '(' :: (khtml ++ ')' :: chrome) := by
    decide
  unfold chromeAgent onWebKit engine claim safari
  rw [opening_eq, hengine, hchrome]
  simp only [opening_append, List.append_assoc, List.cons_append]

theorem geckoAgent_append (f os m r d t : Text) :
    geckoAgent f os m r d ++ t = onGecko f os m r d t := by
  have hengine : ") Gecko/".toList = ')' :: geckoEngine := by decide
  unfold geckoAgent onGecko revision
  rw [opening_eq, hengine]
  simp only [opening_append, List.append_assoc, List.cons_append]

/-- An agent that does not end with a parenthesis is left to the patterns for browsers, and to those
for other agents only if they fail. -/
theorem resolve_of_not_compatible [RegexEngine] {agent : Text} (h : agent.getLast? ≠ some ')') :
    builtin.resolve agent = (((gecko.map nodes).findSome? (reading agent)).or
      ((webKit.map nodes).findSome? (reading agent))).or
        ((plain.map nodes).findSome? (reading agent)) := by
  rw [resolve_builtin, patterns, List.map_append, List.findSome?_append, List.map_append,
    List.findSome?_append, List.map_append, List.findSome?_append,
    findSome?_compatible_eq_none h, Option.none_or]

namespace Introduces

variable [RegexEngine] {f os m w c s n v : Text}

theorem exists_resolve_chrome (h : Introduces f os m) (hm : m ≠ []) (hw : w.isToken = true)
    (hc : c.isToken = true) (hs : s.isToken = true) :
    ∃ res, builtin.resolve (onWebKit f os m w (claim c s [])) = some res ∧
      res.Identifies os "Chrome".toList c m := by
  have hclosed := close_not_mem_claim hc hs (List.not_mem_nil (a := ')'))
  obtain ⟨x, hx, hne⟩ := exists_getLast?_token hs
  have hend : (onWebKit f os m w (claim c s [])).getLast? ≠ some ')' := by
    simp [onWebKit, opening, claim, List.getLast?_cons, List.getLast?_append, hx, hne]
  obtain ⟨res, hres, hidentifies⟩ := h.exists_reading_safari hm hw hc hs
  refine ⟨res, ?_, hidentifies⟩
  rw [resolve_of_not_compatible hend, findSome?_gecko_eq_none (h.not_gecko hw hclosed), nodes_webKit,
    List.findSome?_cons, h.reading_derived_eq_none hw hc hs, List.findSome?_cons,
    h.reading_version_eq_none hw hclosed, List.findSome?_cons, h.reading_version_eq_none hw hclosed,
    List.findSome?_cons, hres]
  rfl

theorem exists_resolve_derived (h : Introduces f os m) (hm : m ≠ []) (hw : w.isToken = true)
    (hc : c.isToken = true) (hs : s.isToken = true) (hn : n.isToken = true) (hv : v.isToken = true) :
    ∃ res, builtin.resolve (onWebKit f os m w (claim c s (' ' :: (n ++ '/' :: v)))) = some res ∧
      res.Identifies os n v m := by
  have hclosed := close_not_mem_claim hc hs (close_not_mem_product hn hv)
  obtain ⟨x, hx, hne⟩ := exists_getLast?_token hv
  have hend : (onWebKit f os m w (claim c s (' ' :: (n ++ '/' :: v)))).getLast? ≠ some ')' := by
    simp [onWebKit, opening, claim, List.getLast?_cons, List.getLast?_append, hx, hne]
  obtain ⟨res, hres, hidentifies⟩ := h.exists_reading_derived hm hw hc hs hn hv
  refine ⟨res, ?_, hidentifies⟩
  rw [resolve_of_not_compatible hend, findSome?_gecko_eq_none (h.not_gecko hw hclosed), nodes_webKit,
    List.findSome?_cons, hres]
  rfl

theorem exists_resolve_gecko (h : Introduces f os m) (hm : m ≠ []) {r d : Text}
    (hr : attributeSlot.Captures r) (hd : d.isToken = true) (hn : n.isToken = true)
    (hv : v.isToken = true) :
    ∃ res, builtin.resolve (onGecko f os m r d (' ' :: (n ++ '/' :: v))) = some res ∧
      res.Identifies os n v m := by
  obtain ⟨x, hx, hne⟩ := exists_getLast?_token hv
  have hend : (onGecko f os m r d (' ' :: (n ++ '/' :: v))).getLast? ≠ some ')' := by
    simp [onGecko, opening, List.getLast?_cons, List.getLast?_append, hx, hne]
  obtain ⟨res, hres, hidentifies⟩ := h.exists_reading_gecko hm hr hd hn hv
  obtain ⟨others, hgecko⟩ := List.head?_eq_some_iff.mp head_nodes_gecko
  refine ⟨res, ?_, hidentifies⟩
  rw [resolve_of_not_compatible hend, hgecko, List.findSome?_cons, hres]
  rfl

end Introduces

end Builtin

/-- **Browsers are told by their product, their system and their remark.**  Chrome is what it claims to
be, unless a product of its own follows it, as the derivatives of Chromium have one.  On Gecko it is
the product at the end, and the revision does not belong to the remark.  The remark may hold anything
but parentheses and controls, even what looks like another pattern. -/
theorem resolve_builtin_browser [RegexEngine] {f w c s d n v os r m : Text}
    (htokens : ∀ t ∈ [f, w, c, s, d, n, v], t.isToken = true)
    (hattributes : ∀ t ∈ [os, r],
      t ≠ [] ∧ ∀ x ∈ t, x ≠ '(' ∧ x ≠ ')' ∧ x ≠ ';' ∧ isControl x = false)
    (hremark : m ≠ []) (hchars : ∀ x ∈ m, x ≠ '(' ∧ x ≠ ')' ∧ (isControl x = true → x = '\t')) :
    (∃ res, builtin.resolve (chromeAgent f os m w c s) = some res ∧
      res.Identifies os "Chrome".toList c m) ∧
    (∃ res, builtin.resolve (chromeAgent f os m w c s ++ ' ' :: (n ++ '/' :: v)) = some res ∧
      res.Identifies os n v m) ∧
    ∃ res, builtin.resolve (geckoAgent f os m r d ++ ' ' :: (n ++ '/' :: v)) = some res ∧
      res.Identifies os n v m := by
  simp only [List.mem_cons, List.not_mem_nil, or_false, forall_eq_or_imp, forall_eq] at htokens
  obtain ⟨hf, hw, hc, hs, hd, hn, hv⟩ := htokens
  have hparens : m.NoParens := ⟨fun h => (hchars _ h).1 rfl, fun h => (hchars _ h).2.1 rfl⟩
  have hcomment : Builtin.commentSlot.Captures m := Builtin.captures_comment_iff.mpr
    ⟨fun x hx => (hchars x hx).2.2, Text.balanced_of_not_mem hparens.opened hparens.closed⟩
  have hintro : Builtin.Introduces f os m :=
    ⟨hf, Builtin.captures_attribute_iff.mpr (hattributes os (by simp)), hcomment, hparens⟩
  have hr : Builtin.attributeSlot.Captures r :=
    Builtin.captures_attribute_iff.mpr (hattributes r (by simp))
  rw [Builtin.geckoAgent_append, Builtin.chromeAgent_append, ← List.append_nil (chromeAgent ..),
    Builtin.chromeAgent_append]
  exact ⟨hintro.exists_resolve_chrome hremark hw hc hs,
    hintro.exists_resolve_derived hremark hw hc hs hn hv,
    hintro.exists_resolve_gecko hremark hr hd hn hv⟩

/-! ### A remark that imitates what is behind it -/

namespace Imitating

def tokens : List Text :=
  ["5.0".toList, "537.36".toList, "120.0".toList, "537.3".toList, "2010".toList, "Edg".toList,
    "119".toList]

def system : Text := "Windows NT 10.0".toList

def remark : Text := "x64; rv:1; Safari/2\tn/v".toList

def chromeText : Text :=
  "Mozilla/5.0 (Windows NT 10.0; x64; rv:1; Safari/2\tn/v) AppleWebKit/537.36 ".toList ++
    "(KHTML, like Gecko) Chrome/120.0 Safari/537.3".toList

def geckoText : Text :=
  "Mozilla/5.0 (Windows NT 10.0; x64; rv:1; Safari/2\tn/v; rv:109.0) Gecko/2010 Edg/119".toList

attribute [local instance] Regex.engine

/-- Semicolons, a revision and other products inside the remark mislead none of the patterns. -/
theorem resolve_builtin_imitating :
    (∀ t ∈ tokens, t.isToken = true) ∧
    (∀ t ∈ [system, "109.0".toList],
      t ≠ [] ∧ ∀ x ∈ t, x ≠ '(' ∧ x ≠ ')' ∧ x ≠ ';' ∧ isControl x = false) ∧
    remark ≠ [] ∧ (∀ x ∈ remark, x ≠ '(' ∧ x ≠ ')' ∧ (isControl x = true → x = '\t')) ∧
    (∃ res, builtin.resolve chromeText = some res ∧
      res.captured StandardVariable.agentOs = some system ∧
      res.product = ⟨"Chrome".toList, some "120.0".toList, some remark⟩) ∧
    (∃ res, builtin.resolve (chromeText ++ " Edg/119".toList) = some res ∧
      res.product = ⟨"Edg".toList, some "119".toList, some remark⟩) ∧
    ∃ res, builtin.resolve geckoText = some res ∧
      res.product = ⟨"Edg".toList, some "119".toList, some remark⟩ := by
  have htokens : ∀ t ∈ tokens, t.isToken = true := by decide
  have hattributes : ∀ t ∈ [system, "109.0".toList],
      t ≠ [] ∧ ∀ x ∈ t, x ≠ '(' ∧ x ≠ ')' ∧ x ≠ ';' ∧ isControl x = false :=
    List.forall_mem_cons.mpr ⟨⟨by decide, List.all_iff_forall_prop.mp (by decide +kernel)⟩,
      List.forall_mem_singleton.mpr ⟨by decide, List.all_iff_forall_prop.mp (by decide +kernel)⟩⟩
  have hchars : ∀ x ∈ remark, x ≠ '(' ∧ x ≠ ')' ∧ (isControl x = true → x = '\t') :=
    List.all_iff_forall_prop.mp (by decide +kernel)
  have hchrome : chromeText = chromeAgent "5.0".toList system remark "537.36".toList
      "120.0".toList "537.3".toList := by decide +kernel
  have hderived : chromeText ++ " Edg/119".toList = chromeAgent "5.0".toList system remark
      "537.36".toList "120.0".toList "537.3".toList ++
        ' ' :: ("Edg".toList ++ '/' :: "119".toList) := by decide +kernel
  have hgecko : geckoText = geckoAgent "5.0".toList system remark "109.0".toList "2010".toList ++
      ' ' :: ("Edg".toList ++ '/' :: "119".toList) := by decide +kernel
  obtain ⟨⟨res, hres, htold⟩, ⟨res', hres', htold'⟩, ⟨res'', hres'', htold''⟩⟩ :=
    resolve_builtin_browser htokens hattributes (by decide) hchars
  rw [hderived, hchrome, hgecko]
  exact ⟨htokens, hattributes, by decide, hchars, ⟨res, hres, htold.system, htold.product⟩,
    ⟨res', hres', htold'.product⟩, ⟨res'', hres'', htold''.product⟩⟩

end Imitating

end Catalog

end ContentNegotiation
