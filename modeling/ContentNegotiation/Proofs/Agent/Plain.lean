import ContentNegotiation.Proofs.Agent.Builtin
import ContentNegotiation.Proofs.Agent.Product

/-!
# The plain patterns

The last four patterns of the built-in catalog are for agents that lead with a product token.  Three
of them begin with a name, a slash and a version (`headed`) and differ in what is behind:

* `noted` — a comment and, after a blank, anything;
* `enclosed` — a comment at the end;
* `trailed` — a blank and anything, or nothing at all, since that blank may be left out.

Principal results: `mem_splits_headed_iff` (name and version are found in only one way, so a split
is a fit of what is behind them), `reading_headed` (what holds of every split holds of the reading)
and `mem_splits_bare_iff` (a name alone).
-/

namespace ContentNegotiation

namespace Catalog

namespace Builtin

/-! ## The last four patterns -/

def nameSlot : Slot := ⟨StandardVariable.agentName, .mandatory .token⟩
def versionSlot : Slot := ⟨StandardVariable.agentVersion, .mandatory .token⟩
def commentSlot : Slot := ⟨StandardVariable.agentComment, .facultative .comment⟩
def dataSlot : Slot := ⟨StandardVariable.facultativeData, .facultative .all⟩
def osSlot : Slot := ⟨StandardVariable.agentOs, .mandatory .commentAttribute⟩
def attributeSlot : Slot := ⟨StandardVariable.commentAttribute, .mandatory .commentAttribute⟩

/-- A name and a version, with what is behind them. -/
def headed (tail : List Node) : List Node :=
  .slot nameSlot :: .literal ['/'] :: .slot versionSlot :: tail

/-- A comment with anything behind it. -/
def noted : List Node :=
  [.literal [' ', '('], .slot commentSlot, .literal [')', ' '], .slot dataSlot]

/-- A comment at the end. -/
def enclosed : List Node :=
  [.literal [' ', '('], .slot commentSlot, .literal [')']]

/-- Anything behind a blank, or nothing at all. -/
def trailed : List Node :=
  [.literal [' '], .slot dataSlot]

theorem nodes_plain : plain.map nodes =
    [headed noted, headed enclosed, headed trailed, [.slot nameSlot]] := by
  decide +kernel

/-! ## A name and a version -/

/-- The pieces of a name and a version. -/
def headPieces (n v : Text) : List Piece :=
  [.captured nameSlot n, .literal ['/'], .captured versionSlot v]

theorem lastCapture_name (n v : Text) :
    Piece.LastCapture (headPieces n v) StandardVariable.agentName nameSlot n := by
  refine ⟨[], [.literal ['/'], .captured versionSlot v], rfl, rfl, ?_⟩
  simp only [Piece.captured_literal_iff, Piece.captured_slot_iff, Piece.not_captured_nil, or_false]
  decide

theorem lastCapture_version (n v : Text) :
    Piece.LastCapture (headPieces n v) StandardVariable.agentVersion versionSlot v :=
  ⟨[.captured nameSlot n, .literal ['/']], [], rfl, rfl, Piece.not_captured_nil⟩

theorem not_captured_headPieces (n v : Text) {name : Text}
    (h : name ∈ [StandardVariable.agentComment, StandardVariable.agentOs]) :
    ¬ Piece.Captured (headPieces n v) name := by
  simp only [headPieces, Piece.captured_slot_iff, Piece.captured_literal_iff,
    Piece.not_captured_nil, or_false]
  revert name
  decide

theorem covered_headPieces (n v : Text) (qs : List Piece) :
    Piece.covered (headPieces n v ++ qs) = n ++ '/' :: (v ++ Piece.covered qs) := by
  simp [headPieces, Piece.text]

/-- What follows a version: nothing, or a blank with any rest. -/
def Tailed (t : Text) : Prop := t = [] ∨ ∃ r, t = ' ' :: r

theorem Tailed.endsToken {t : Text} (h : Tailed t) : t.EndsToken := by
  rcases h with rfl | ⟨r, rfl⟩
  · exact Text.endsToken_nil
  · exact Text.endsToken_cons (by decide)

/-! ## What fits the patterns -/

variable [RegexEngine]

theorem captures_mandatory_iff {name span : Text} {kind : Kind} :
    Slot.Captures ⟨name, .mandatory kind⟩ span ↔ span ≠ [] ∧ kind.Describes span := by
  rw [Slot.Captures]
  split
  · rename_i hempty
    exact iff_of_false (by simp [Variable.mandatory]) fun h => h.1 hempty
  · rename_i hne
    exact ⟨fun h => ⟨hne, h⟩, fun h => h.2⟩

theorem captures_token_iff {name span : Text} :
    Slot.Captures ⟨name, .mandatory .token⟩ span ↔ span.isToken = true := by
  rw [captures_mandatory_iff, Text.isToken_iff]
  rfl

theorem captures_attribute_iff {name span : Text} :
    Slot.Captures ⟨name, .mandatory .commentAttribute⟩ span ↔
      span ≠ [] ∧ ∀ x ∈ span, x ≠ '(' ∧ x ≠ ')' ∧ x ≠ ';' ∧ isControl x = false := by
  rw [captures_mandatory_iff]
  refine and_congr_right fun _ => forall₂_congr fun x _ => ?_
  simp [Kind.accepts]
  tauto

theorem captures_data (span : Text) : dataSlot.Captures span := by
  unfold Slot.Captures
  split
  · rfl
  · exact fun _ _ => rfl

theorem captures_comment_iff {c : Text} :
    commentSlot.Captures c ↔ (∀ x ∈ c, isControl x = true → x = '\t') ∧ c.Balanced := by
  unfold Slot.Captures
  split
  · rename_i hempty
    subst hempty
    refine iff_of_true rfl ⟨?_, Text.closes_nil_iff.mpr rfl⟩
    intro x hx
    cases hx
  · refine and_congr_left fun _ => forall₂_congr ?_
    intro x _
    cases hx : isControl x with
    | true => simp [Kind.accepts, hx]
    | false => simp [Kind.accepts, hx]

theorem fits_headed_iff {tail : List Node} {ps : List Piece} :
    Fits (headed tail) ps ↔
      ∃ n v qs, n.isToken = true ∧ v.isToken = true ∧ Fits tail qs ∧ ps = headPieces n v ++ qs := by
  constructor
  · intro h
    obtain ⟨n, _, rfl, hn, hslash⟩ := Fits.slot_iff.mp h
    obtain ⟨_, rfl, hversion⟩ := (Fits.literal_iff_of_not_blank (by decide)).mp hslash
    obtain ⟨v, qs, rfl, hv, htail⟩ := Fits.slot_iff.mp hversion
    exact ⟨n, v, qs, captures_token_iff.mp hn, captures_token_iff.mp hv, htail, rfl⟩
  · rintro ⟨n, v, qs, hn, hv, h, rfl⟩
    exact .captured (captures_token_iff.mpr hn)
      (.literal (.captured (captures_token_iff.mpr hv) h))

theorem fits_noted_iff {qs : List Piece} :
    Fits noted qs ↔ ∃ c d, commentSlot.Captures c ∧
      qs = [.literal [' ', '('], .captured commentSlot c, .literal [')', ' '],
        .captured dataSlot d] := by
  constructor
  · intro h
    obtain ⟨_, rfl, hcomment⟩ := (Fits.literal_iff_of_not_blank (by decide)).mp h
    obtain ⟨c, _, rfl, hc, hclose⟩ := Fits.slot_iff.mp hcomment
    obtain ⟨_, rfl, hdata⟩ := (Fits.literal_iff_of_not_blank (by decide)).mp hclose
    obtain ⟨d, _, rfl, -, hend⟩ := Fits.slot_iff.mp hdata
    obtain rfl := Fits.nil_iff.mp hend
    exact ⟨c, d, hc, rfl⟩
  · rintro ⟨c, d, hc, rfl⟩
    exact .literal (.captured hc (.literal (.captured (captures_data d) .nil)))

theorem fits_enclosed_iff {qs : List Piece} :
    Fits enclosed qs ↔ ∃ c, commentSlot.Captures c ∧
      qs = [.literal [' ', '('], .captured commentSlot c, .literal [')']] := by
  constructor
  · intro h
    obtain ⟨_, rfl, hcomment⟩ := (Fits.literal_iff_of_not_blank (by decide)).mp h
    obtain ⟨c, _, rfl, hc, hclose⟩ := Fits.slot_iff.mp hcomment
    obtain ⟨_, rfl, hend⟩ := (Fits.literal_iff_of_not_blank (by decide)).mp hclose
    obtain rfl := Fits.nil_iff.mp hend
    exact ⟨c, hc, rfl⟩
  · rintro ⟨c, hc, rfl⟩
    exact .literal (.captured hc (.literal .nil))

theorem fits_trailed_iff {qs : List Piece} :
    Fits trailed qs ↔ (∃ d, qs = [.literal [' '], .captured dataSlot d]) ∨
      qs = [.skipped, .captured dataSlot []] := by
  constructor
  · intro h
    rcases Fits.literal_iff.mp h with ⟨_, rfl, hdata⟩ | ⟨s, beyond, _, hafter, rfl, -, -, hend⟩
    · obtain ⟨d, _, rfl, -, hend⟩ := Fits.slot_iff.mp hdata
      obtain rfl := Fits.nil_iff.mp hend
      exact Or.inl ⟨d, rfl⟩
    · obtain ⟨⟨rfl⟩, rfl⟩ := List.cons.inj hafter
      obtain rfl := Fits.nil_iff.mp hend
      exact Or.inr rfl
  · rintro (⟨d, rfl⟩ | rfl)
    · exact .literal (.captured (captures_data d) .nil)
    · exact .skipped (Text.allBlank_iff.mp (by decide)) rfl .nil

theorem tailed_of_fits {tail : List Node} (htail : tail ∈ [noted, enclosed, trailed])
    {qs : List Piece} (h : Fits tail qs) : Tailed (Piece.covered qs) := by
  simp only [List.mem_cons, List.not_mem_nil, or_false] at htail
  rcases htail with rfl | rfl | rfl
  · obtain ⟨c, d, -, rfl⟩ := fits_noted_iff.mp h
    exact Or.inr ⟨_, rfl⟩
  · obtain ⟨c, -, rfl⟩ := fits_enclosed_iff.mp h
    exact Or.inr ⟨_, rfl⟩
  · rcases fits_trailed_iff.mp h with ⟨d, rfl⟩ | rfl
    · exact Or.inr ⟨_, rfl⟩
    · exact Or.inl rfl

/-! ## Splits and readings -/

/-- A split of such a pattern cuts the input into a name, a slash, a version and the rest. -/
theorem exists_head_of_mem_splits {agent : Text} {tail : List Node} {ps : List Piece}
    (h : ps ∈ splits .whole (headed tail) agent) :
    ∃ n v qs, n.isToken = true ∧ v.isToken = true ∧ Fits tail qs ∧ ps = headPieces n v ++ qs ∧
      agent = n ++ '/' :: (v ++ Piece.covered qs) := by
  obtain ⟨hfits, hcovers⟩ := mem_splits_iff.mp h
  obtain ⟨n, v, qs, hn, hv, hqs, rfl⟩ := fits_headed_iff.mp hfits
  refine ⟨n, v, qs, hn, hv, hqs, rfl, ?_⟩
  rw [← covered_headPieces]
  exact Eq.symm hcovers

section Headed

variable {n v t : Text} {tail : List Node}

/-- A name and a version are found in only one way. -/
theorem mem_splits_headed_iff (hn : n.isToken = true) (hv : v.isToken = true) (ht : Tailed t)
    (htail : tail ∈ [noted, enclosed, trailed]) {ps : List Piece} :
    ps ∈ splits .whole (headed tail) (n ++ '/' :: (v ++ t)) ↔
      ∃ qs, Fits tail qs ∧ Piece.covered qs = t ∧ ps = headPieces n v ++ qs := by
  constructor
  · intro h
    obtain ⟨m, w, qs, hm, hw, hqs, rfl, heq⟩ := exists_head_of_mem_splits h
    obtain ⟨rfl, hrest⟩ :=
      Text.token_append_inj hn hm (Text.endsToken_slash _) (Text.endsToken_slash _) heq
    obtain ⟨rfl, htcovered⟩ := Text.token_append_inj hv hw ht.endsToken
      (tailed_of_fits htail hqs).endsToken (List.cons.inj hrest).2
    exact ⟨qs, hqs, htcovered.symm, rfl⟩
  · rintro ⟨qs, hqs, rfl, rfl⟩
    rw [mem_splits_iff, fits_headed_iff]
    exact ⟨⟨n, v, qs, hn, hv, hqs, rfl⟩, covered_headPieces n v qs⟩

/-- What holds of the product of every split holds of the reading, unless there is no split. -/
theorem reading_headed (hn : n.isToken = true) (hv : v.isToken = true) (ht : Tailed t)
    (htail : tail ∈ [noted, enclosed, trailed]) (P : Product → Prop)
    (hP : ∀ qs, Fits tail qs → Piece.covered qs = t →
      ∃ res, Resolution.ofMatch (.ofPieces (headPieces n v ++ qs)) = some res ∧ P res.product) :
    (reading (n ++ '/' :: (v ++ t)) (headed tail) = none ∧
        ∀ qs, Fits tail qs → Piece.covered qs ≠ t) ∨
      ∃ res, reading (n ++ '/' :: (v ++ t)) (headed tail) = some res ∧ P res.product := by
  rcases reading_cases (n ++ '/' :: (v ++ t)) (headed tail) with ⟨hnone, hno⟩ | ⟨ps, hps, hread⟩
  · refine Or.inl ⟨hnone, ?_⟩
    intro qs hqs hcovered
    exact hno _ ((mem_splits_headed_iff hn hv ht htail).mpr ⟨qs, hqs, hcovered, rfl⟩)
  · obtain ⟨qs, hqs, hcovered, rfl⟩ := (mem_splits_headed_iff hn hv ht htail).mp hps
    rw [hread]
    exact Or.inr (hP qs hqs hcovered)

end Headed

/-! ## A name alone -/

theorem reading_headed_bare {n : Text} (hn : n.isToken = true) (tail : List Node) :
    reading n (headed tail) = none := by
  rcases reading_cases n (headed tail) with ⟨hnone, -⟩ | ⟨ps, hps, -⟩
  · exact hnone
  · exfalso
    obtain ⟨m, w, qs, -, -, -, -, heq⟩ := exists_head_of_mem_splits hps
    have hslash : '/' ∉ n := Text.not_mem_of_isToken hn (by decide)
    refine hslash ?_
    rw [heq]
    simp

theorem mem_splits_bare_iff {agent : Text} {ps : List Piece} :
    ps ∈ splits .whole [.slot nameSlot] agent ↔
      agent.isToken = true ∧ ps = [.captured nameSlot agent] := by
  rw [mem_splits_iff]
  constructor
  · rintro ⟨hfits, hcovers⟩
    obtain ⟨n, _, rfl, hn, hend⟩ := Fits.slot_iff.mp hfits
    obtain rfl := Fits.nil_iff.mp hend
    obtain rfl : n = agent := by
      rw [← show Piece.covered [.captured nameSlot n] = agent from hcovers]
      simp [Piece.text]
    exact ⟨captures_token_iff.mp hn, rfl⟩
  · rintro ⟨hn, rfl⟩
    exact ⟨.captured (captures_token_iff.mpr hn) .nil, List.append_nil agent⟩

end Builtin

end Catalog

end ContentNegotiation
